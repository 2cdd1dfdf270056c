import Execlaw.DispatchOnce
import Execlaw.Timeline
/-!
# RetryBudget — how many dispatches a row gets

A recorded failure or doubt counts an attempt, and a row past its budget is dead.  The dispatches are bounded by the
budget as long as each one is counted before the next: a relay that takes over an expired lease, or acts on a row it has
lost, sends the row again for nothing.
-/
namespace Execlaw

open Steps

variable {J : Type} {env : Env J} {s s' : System J} {a : Action J} {i : Int} {m : Nat}

/-! ## The store calls of the system -/

def System.outcomeCall (env : Env J) (s : System J) (r : Nat) (job : Job) : Outcome → EffectCall
  | .delivered receipt => .markDeliveredWithReceipt job.id receipt s.clock
  | .failure error => .recordFailure job.id error (env.relay r).maxAttempts (backoffSecs job.row) s.clock
  | .unknown reason => .markUnknown job.id reason s.clock
  | .noDispatcher => .recordFailure job.id s!"no dispatcher for '{job.row.effectKind}'" 1 0 s.clock

def System.storeCall (env : Env J) (s : System J) : Action J → Option EffectCall
  | .claimNext r =>
    match s.relays r with
    | .scanning nowTs (row :: _) _ =>
      row.id.map (fun id => .claimWithLease id s!"relay:{(env.relay r).pid}:{nowTs}" nowTs 120)
    | _ => none
  | .settle r =>
    match s.relays r with
    | .working job (.settling outcome _) => some (s.outcomeCall env r job outcome)
    | _ => none
  | .enqueue row => some (.enqueue row s.clock)
  | .enqueueIdempotent row => some (.enqueueIdempotent row s.clock)
  | .enqueueForAgent row key agentId generation => some (.enqueueIdempotentForAgent row key agentId generation s.clock)
  | .authorizeUnknownRetry id actor reason => some (.authorizeUnknownRetry id actor reason s.clock)
  | .confirmUnknownDelivered id actor receipt => some (.confirmUnknownDelivered id actor receipt s.clock)
  | .redriveDeadLetter id actor reason => some (.redriveDeadLetter id actor reason s.clock)
  | .takeover conversationId channel recipient =>
    some (.takeover (env.scopeKey conversationId channel recipient) conversationId s.clock)
  | _ => none

theorem Db.EffectStep.elsewhere {db : Db} : db.EffectStep none db := ⟨rfl, rfl, rfl⟩

theorem handback_events {J : Type} (json : JsonCodec J) (key : String) (generation : Nat) (now : Int) (db : Db) :
    (handbackWithContext json key generation now db).2.deliveryEvents = db.deliveryEvents := by
  unfold handbackWithContext
  refine transaction_snd (P := fun db' => db'.deliveryEvents = db.deliveryEvents) rfl ?_
  intro res db' h
  split at h
  · cases h
  dsimp only at h
  split at h
  · cases h
  split at h
  · cases h
  rename_i db₁ hins
  cases h
  unfold Db.insertHandoff at hins
  split at hins
  · cases hins
  cases hins
  cases (db.controller key generation).bind OwnershipRow.previousAgentId <;> rfl

theorem settled_db (s : System J) (r : Nat) (job : Job) (context : String) (counted : Nat) {α : Type}
    (res : Except DbError α × Db) : (s.settled r job context counted res).db = res.2 := by
  obtain ⟨x, db⟩ := res
  cases x <;> rfl

theorem settle_call (s : System J) (r : Nat) (job : Job) (context : String) (outcome : Outcome) :
    (s.settle env r job context outcome).db = (s.db.call (s.outcomeCall env r job outcome)).2 := by
  cases outcome with
  | delivered | failure | unknown => rw [System.settle, settled_db, System.outcomeCall, Db.call, snd_report]
  | noDispatcher => rw [System.settle, System.outcomeCall, Db.call, snd_report]

theorem exec_storeCall (h : s.exec env a = some s') : s.db.EffectStep (s.storeCall env a) s'.db := by
  cases ha : a.relay? with
  | some q =>
    cases exec_relay ha h with
    | @claimNext nowTs row rest n hr =>
      simp only [System.storeCall, hr]
      unfold System.claimNext
      cases hid : row.id with
      | none => exact .elsewhere
      | some id =>
        rcases claimWithLease_cases id s!"relay:{(env.relay q).pid}:{nowTs}" nowTs 120 s.db with
          hres | ⟨rec, rec', db', hres, -⟩
        · simp only [hres, Option.map_some, Db.EffectStep, Db.call, snd_report]
        · simp only [hres, Option.map_some, Db.EffectStep, Db.call, snd_report]
    | @settle job outcome context hr =>
      simp only [System.storeCall, hr]
      exact (settle_call s q job context outcome).symm
    | proceed hr =>
      rw [proceed_db]
      exact .elsewhere
    | dispatchReturned hr result =>
      rw [dispatchReturned_db]
      exact .elsewhere
    | reconcileReturned hr result =>
      rw [reconcileReturned_db]
      exact .elsewhere
    | beginDrain | finishDrain | crash => exact .elsewhere
  | none =>
    cases a with
    | setClock now =>
      cases h
      exact .elsewhere
    | enqueue | enqueueIdempotent | enqueueForAgent | authorizeUnknownRetry | confirmUnknownDelivered
    | redriveDeadLetter | takeover =>
      cases h
      simp [call_db, System.storeCall, Db.EffectStep, Db.call, snd_report]
    | assignAgent conversationId channel recipient agentId =>
      cases h
      rw [call_db]
      rcases assignAgent_cases (env.scopeKey conversationId channel recipient) conversationId agentId s.clock s.db with
        ⟨own, -, hres⟩ | ⟨-, hres⟩
      · rw [hres]
        exact .elsewhere
      · rw [hres]
        exact ⟨rfl, rfl, rfl⟩
    | recordOperatorAction conversationId channel recipient eventId seq payload =>
      cases h
      unfold System.recordOperatorAction
      rw [call_db]
      rcases recordOperatorAction_cases env.json (env.scopeKey conversationId channel recipient) eventId seq payload
        s.clock s.db with ⟨res, hres, -⟩ | ⟨own, encoded, -, -, -, hres⟩
      · rw [hres]
        exact .elsewhere
      · rw [hres]
        exact ⟨rfl, rfl, rfl⟩
    | handback conversationId channel recipient generation =>
      cases h
      rw [call_db]
      have hev := handback_events env.json (env.scopeKey conversationId channel recipient) generation s.clock s.db
      rcases handbackWithContext_cases env.json (env.scopeKey conversationId channel recipient) generation s.clock s.db
        with ⟨e, hres⟩ | ⟨res, db', hres⟩
      · rw [hres]
        exact .elsewhere
      · obtain ⟨own, payload, -, -, -, -, hhands, hout⟩ := handbackWithContext_ok hres
        rw [hres] at hev ⊢
        exact ⟨hout, hhands.seq, hev⟩
    | _ => cases ha

/-! ## Counting -/

def dispatchesSince (i : Int) : List (Entry J) → Nat
  | [] => 0
  | .dispatch _ j :: h => if j = i then dispatchesSince i h + 1 else dispatchesSince i h
  | .released j :: h => if j = i then 0 else dispatchesSince i h
  | .notAccepted _ _ :: h | .assigned _ :: h | .tookOver _ _ :: h | .acted _ _ _ _ _ :: h
  | .handedBack _ _ _ :: h => dispatchesSince i h

def Transition.opens : Transition → Bool
  | .enqueued | .retryAuthorized | .operatorRedrive => true
  | _ => false

def countEvent (n : Nat) (e : DeliveryEvent) : Nat :=
  if e.transition.opens then 0 else if e.transition.counted then n + 1 else n

def attemptsSince (history : List DeliveryEvent) : Nat := history.foldl countEvent 0

theorem attemptsSince_snoc (history : List DeliveryEvent) (e : DeliveryEvent) :
    attemptsSince (history ++ [e]) = countEvent (attemptsSince history) e := by
  simp [attemptsSince]

theorem dispatchesSince_append_le {h : List (Entry J)} : ∀ {new : List (Entry J)},
    (∀ e ∈ new, ∀ r j, e ≠ .dispatch r j ∧ e ≠ .notAccepted r j) →
    dispatchesSince i (new ++ h) ≤ dispatchesSince i h
  | [], _ => Nat.le_refl _
  | e :: new, hnew => by
    have ih : dispatchesSince i (new ++ h) ≤ dispatchesSince i h :=
      dispatchesSince_append_le (fun e he => hnew e (List.mem_cons_of_mem _ he))
    rw [List.cons_append]
    cases e with
    | dispatch r j => exact absurd rfl (hnew _ List.mem_cons_self r j).1
    | notAccepted | assigned | tookOver | acted | handedBack => exact ih
    | released j =>
      simp only [dispatchesSince]
      split
      · exact Nat.zero_le _
      · exact ih

theorem dispatchesSince_eq_zero : ∀ {h : List (Entry J)}, (∀ r, .dispatch r i ∉ h) → dispatchesSince i h = 0
  | [], _ => rfl
  | e :: h, hnone => by
    have ih : dispatchesSince i h = 0 := dispatchesSince_eq_zero fun r hr => hnone r (List.mem_cons_of_mem _ hr)
    cases e with
    | dispatch r j =>
      simp only [dispatchesSince]
      rw [if_neg ?_, ih]
      rintro rfl
      exact hnone r List.mem_cons_self
    | released j =>
      simp only [dispatchesSince]
      split
      · rfl
      · exact ih
    | notAccepted | assigned | tookOver | acted | handedBack => exact ih

/-! ## The condition -/

def System.sends (env : Env J) (s : System J) : Action J → Option Int
  | .proceed r =>
    match s.relays r with
    | .working job .claimed =>
      match (env.relay r).registry job.row.effectKind with
      | none => none
      | some safety => if job.row.status = .inFlight ∧ safety ≠ .idempotencyKey then none else some job.id
    | _ => none
  | .reconcileReturned r (.ok .notDelivered) =>
    match s.relays r with
    | .working job (.reconciling none) => some job.id
    | _ => none
  | _ => none

def System.fails (s : System J) : Action J → Option Int
  | .settle r =>
    match s.relays r with
    | .working job (.settling (.failure _) _) | .working job (.settling .noDispatcher _) => some job.id
    | _ => none
  | _ => none

def Action.row? : Action J → Option OutboxRow
  | .enqueue row | .enqueueIdempotent row | .enqueueForAgent row _ _ _ => some row
  | _ => none

/-- **Every dispatch of row `i` is counted before the next.**  A dispatch starts while the row is in flight and every
earlier one since it was stored or released is recorded as an attempt; the attempts are stored as no negative number and
stay within 32 bits. -/
def counted (env : Env J) (i : Int) (s : System J) (a : Action J) : Bool :=
  (s.sends env a != some i || (s.db.effect i).any (fun rec => rec.status == .inFlight &&
    decide (dispatchesSince i s.history ≤ attemptsSince (s.db.timeline i)))) &&
  (s.fails a != some i || (s.db.effect i).any (fun rec => decide (rec.attempts + 1 < 2 ^ 32))) &&
  (i != s.db.outboxSeq + 1 || a.row?.all (fun row => decide (0 ≤ row.attempts)))

/-- **The invariant of one row** under a budget of `m` attempts. -/
structure Spent (m : Nat) (i : Int) (s : System J) (rec : OutboxRec) : Prop where
  recorded : (attemptsSince (s.db.timeline i) : Int) ≤ rec.attempts
  live : rec.status = .pending ∨ rec.status = .inFlight →
    attemptsSince (s.db.timeline i) = 0 ∨ rec.attempts < m
  sent : dispatchesSince i s.history ≤ m
  next : dispatchesSince i s.history ≤ attemptsSince (s.db.timeline i) + 1
  pending : rec.status = .pending → dispatchesSince i s.history ≤ attemptsSince (s.db.timeline i)
  failed : rec.status = .failed → dispatchesSince i s.history < m

variable {rec : OutboxRec}

theorem Spent.mono (h : Spent m i s rec) (hline : s'.db.timeline i = s.db.timeline i)
    (hle : dispatchesSince i s'.history ≤ dispatchesSince i s.history) : Spent m i s' rec where
  recorded := by rw [hline]; exact h.recorded
  live := by rw [hline]; exact h.live
  sent := hle.trans h.sent
  next := by rw [hline]; exact hle.trans h.next
  pending := fun hst => by rw [hline]; exact hle.trans (h.pending hst)
  failed := fun hst => lt_of_le_of_lt hle (h.failed hst)

variable {rec rec' : OutboxRec} {e : DeliveryEvent}

theorem Spent.opened (h : Spent m i s rec) (h1 : 1 ≤ m) (hline : s'.db.timeline i = s.db.timeline i ++ [e])
    (he : e.Tells rec rec') (hopens : e.transition.opens = true) (hzero : dispatchesSince i s'.history = 0) :
    Spent m i s' rec' := by
  have hcount : attemptsSince (s'.db.timeline i) = 0 := by
    rw [hline, attemptsSince_snoc, countEvent, if_pos hopens]
  have hrec := h.recorded
  have hattempts := he.attempts
  constructor
  · rw [hcount]
    split at hattempts <;> omega
  · exact fun _ => .inl hcount
  · omega
  · omega
  · exact fun _ => by omega
  · exact fun _ => by omega

theorem Spent.told (h : Spent m i s rec) (h1 : 1 ≤ m) (hline : s'.db.timeline i = s.db.timeline i ++ [e])
    (he : e.Tells rec rec') (hopens : e.transition.opens = false)
    (hle : dispatchesSince i s'.history ≤ dispatchesSince i s.history)
    (hretry : e.transition = .retryScheduled → rec.attempts + 1 < m) : Spent m i s' rec' := by
  obtain ⟨hrec, hlive, hsent, hnext, hpending, -⟩ := h
  obtain ⟨-, hfollows, hstatus, hattempts⟩ := he
  have hcount : attemptsSince (s'.db.timeline i) =
      if e.transition.counted then attemptsSince (s.db.timeline i) + 1 else attemptsSince (s.db.timeline i) := by
    rw [hline, attemptsSince_snoc, countEvent, if_neg (by simp [hopens])]
  cases ht : e.transition with
  | enqueued | retryAuthorized | operatorRedrive =>
    rw [ht] at hopens
    cases hopens
  | sendRequested | leaseReclaimed =>
    simp only [ht, Transition.counted, Transition.leaves, Transition.follows, Bool.false_eq_true, if_false, beq_iff_eq]
      at hcount hstatus hattempts hfollows
    have hlive := hlive (by simp [hfollows])
    exact ⟨by omega, fun _ => by omega, by omega, by omega, by simp [hstatus], by simp [hstatus]⟩
  | retryScheduled =>
    have hretry := hretry ht
    simp only [ht, Transition.counted, Transition.leaves, if_true] at hcount hstatus hattempts
    exact ⟨by omega, fun _ => .inr (by omega), by omega, by omega, fun _ => by omega, by simp [hstatus]⟩
  | outcomeUnknown | deadLetter =>
    simp only [ht, Transition.counted, Transition.leaves, if_true] at hcount hstatus hattempts
    exact ⟨by omega, by simp [hstatus], by omega, by omega, by simp [hstatus], by simp [hstatus]⟩
  | delivered | operatorConfirmedDelivered | takeoverOutcomeUnknown =>
    simp only [ht, Transition.counted, Transition.leaves, Bool.false_eq_true, if_false] at hcount hstatus hattempts
    exact ⟨by omega, by simp [hstatus], by omega, by omega, by simp [hstatus], by simp [hstatus]⟩
  | cancelledByTakeover =>
    simp only [ht, Transition.counted, Transition.leaves, Transition.follows, Bool.false_eq_true, if_false, beq_iff_eq]
      at hcount hstatus hattempts hfollows
    have hlive := hlive (.inl hfollows)
    have hpending := hpending hfollows
    exact ⟨by omega, by simp [hstatus], by omega, by omega, by simp [hstatus], fun _ => by omega⟩

theorem exec_row (hs : s.Coherent env) (h : s.exec env a = some s') (hrec : s.db.effect i = some rec) :
    (s'.db.effect i = some rec ∧ s'.db.timeline i = s.db.timeline i) ∨
    ∃ rec' e c, s'.db.effect i = some rec' ∧ s'.db.timeline i = s.db.timeline i ++ [e] ∧ e.Tells rec rec' ∧
      s.storeCall env a = some c ∧ s'.db = (s.db.call c).2 ∧ c.logs e = true := by
  have hstep := exec_storeCall h
  cases hc : s.storeCall env a with
  | none =>
    rw [hc] at hstep
    obtain ⟨hout, -, hev⟩ := hstep
    left
    unfold Db.effect Db.timeline at *
    rw [hout, hev]
    exact ⟨hrec, rfl⟩
  | some c =>
    rw [hc] at hstep
    have hdb : (s.db.call c).2 = s'.db := hstep
    rcases effectStep_move hstep with ⟨_, row, logged, r, -, -, hstores⟩ | ⟨hmove, -⟩
    · left
      have hne : i ≠ r.id := by
        rintro rfl
        have hmem : r.id ∈ s.db.outbox.map OutboxRec.id := by
          rw [← id_of_effect hrec]
          exact List.mem_map_of_mem (Table.mem_of_byKey hrec)
        have := hs.le_seq _ hmem
        have := hstores.id
        omega
      refine ⟨by rw [effect_append hstores.outbox hstores.id hs.le_seq, if_neg hne, hrec], ?_⟩
      cases logged with
      | false =>
        unfold Db.timeline
        rw [hstores.silent rfl]
      | true =>
        obtain ⟨e, hev, hid, -⟩ := hstores.logged rfl
        rw [timeline_append hev]
        simp [hid, Ne.symm hne]
    · rcases hmove.row hs.nodup i with ⟨heff, hline⟩ | ⟨r, rec', e, hr, hrec', hline, he⟩
      · exact .inl ⟨heff.trans hrec, hline⟩
      · obtain rfl : rec = r := Option.mem_unique hrec hr
        refine .inr ⟨rec', e, c, hrec', hline, he, rfl, hdb.symm, ?_⟩
        obtain ⟨new, hev, hlogs⟩ : s.db.LogsOnly c.logs (s.db.call c).2 := call_events c
        rw [hdb] at hev
        rw [timeline_append hev, List.append_cancel_left_eq] at hline
        have hmem : e ∈ new.filter (fun e => decide (e.outboxId = i)) := by
          rw [hline]
          exact List.mem_singleton_self e
        exact hlogs e (List.mem_filter.1 hmem).1

theorem exec_dispatches (h : s.exec env a = some s') :
    dispatchesSince i s'.history ≤ dispatchesSince i s.history ∨
      (s.sends env a = some i ∧ dispatchesSince i s'.history = dispatchesSince i s.history + 1 ∧ s'.db = s.db) := by
  cases ha : a.relay? with
  | none =>
    obtain ⟨new, hhist, hnew⟩ := others_history ha h
    rw [hhist]
    exact .inl (dispatchesSince_append_le hnew)
  | some q =>
    have hsame : ∀ {s' : System J}, s'.history = s.history →
        dispatchesSince i s'.history ≤ dispatchesSince i s.history := by
      intro s' hhist
      rw [hhist]
    have hsend : ∀ job : Job, s.sends env a = some job.id →
        dispatchesSince i (s.startDispatch q job).history ≤ dispatchesSince i s.history ∨
          (s.sends env a = some i ∧
            dispatchesSince i (s.startDispatch q job).history = dispatchesSince i s.history + 1 ∧
            (s.startDispatch q job).db = s.db) := by
      intro job hjob
      by_cases hid : job.id = i
      · exact .inr ⟨hid ▸ hjob, by simp [System.startDispatch, dispatchesSince, hid], rfl⟩
      · exact .inl (by simp [System.startDispatch, dispatchesSince, hid])
    cases exec_relay ha h with
    | claimNext hr => exact .inl (hsame (claimNext_history ..))
    | settle hr => exact .inl (hsame (settle_history ..).1)
    | @proceed job hr =>
      have hsends : s.sends env (.proceed q) = match (env.relay q).registry job.row.effectKind with
          | none => none
          | some safety => if job.row.status = .inFlight ∧ safety ≠ .idempotencyKey then none else some job.id := by
        simp [System.sends, hr]
      unfold System.proceed
      cases hreg : (env.relay q).registry job.row.effectKind with
      | none => exact .inl (hsame rfl)
      | some safety =>
        rw [hreg] at hsends
        by_cases hst : job.row.status = .inFlight
        · cases safety with
          | idempotencyKey =>
            simp only [if_pos hst]
            exact hsend job (by rw [hsends]; simp)
          | noGuarantee | statusLookup =>
            simp only [if_pos hst]
            exact .inl (hsame rfl)
        · simp only [if_neg hst]
          exact hsend job (by rw [hsends]; simp [hst])
    | @dispatchReturned job hr result =>
      left
      unfold System.dispatchReturned
      split
      · exact hsame rfl
      · exact Nat.le_refl _
      · split <;> exact hsame rfl
    | @reconcileReturned job error hr result =>
      unfold System.reconcileReturned
      split
      case h_2 => exact hsend job (by simp only [System.sends, hr])
      all_goals exact .inl (hsame rfl)
    | beginDrain | finishDrain | crash => exact .inl (hsame rfl)

/-! ## The row's account along a run -/

variable {c : EffectCall}

theorem retry_scheduled (hm : ∀ r, (env.relay r).maxAttempts = m) (h1 : 1 ≤ m) (hcount : counted env i s a = true)
    (hrec : s.db.effect i = some rec) (hpos : 0 ≤ rec.attempts) (hrec' : (s.db.call c).2.effect i = some rec')
    (he : e.Tells rec rec') (hc : s.storeCall env a = some c) (hlogs : c.logs e = true)
    (hretry : e.transition = .retryScheduled) : rec.attempts + 1 < m := by
  obtain rfl : rec.id = i := id_of_effect hrec
  have hst : rec'.status = .pending := by rw [he.status, hretry]; rfl
  -- only the record of a failure logs a retry, and only for a row it finds within the budget
  have hfailure : ∀ error budget backoff, c = .recordFailure rec.id error budget backoff s.clock →
      budget ≤ m → s.fails a = some rec.id → rec.attempts + 1 < m := by
    rintro error budget backoff rfl hbudget hfails
    obtain ⟨db', hres, hw⟩ := recordFailure_eq hrec error budget backoff s.clock
    rw [Db.call, snd_report, hres] at hrec'
    obtain rfl : rec' = _ := Option.mem_unique hrec' hw.written
    rw [status_fail] at hst
    have hwithin := retrying_of_afterFailure hst
    simp only [OutboxRec.retrying, decide_eq_true_eq] at hwithin
    simp only [counted, hfails, hrec, Bool.and_eq_true, bne_self_eq_false, Bool.false_or, Option.any_some,
      decide_eq_true_eq] at hcount
    rw [Int.emod_eq_of_lt (by omega) hcount.1.2] at hwithin
    omega
  cases a with
  | settle r =>
    simp only [System.storeCall] at hc
    split at hc
    · rename_i job outcome context hr
      cases hc
      cases outcome with
      | delivered | unknown => simp [System.outcomeCall, EffectCall.logs, hretry] at hlogs
      | failure error =>
        have hjob : job.id = rec.id := by
          simp only [System.outcomeCall, EffectCall.logs, Bool.and_eq_true, beq_iff_eq] at hlogs
          exact hlogs.1.symm.trans he.id
        refine hfailure error _ _ (by rw [System.outcomeCall, hjob]) (by rw [hm]) ?_
        simp [System.fails, hr, hjob]
      | noDispatcher =>
        have hjob : job.id = rec.id := by
          simp only [System.outcomeCall, EffectCall.logs, Bool.and_eq_true, beq_iff_eq] at hlogs
          exact hlogs.1.symm.trans he.id
        refine hfailure _ 1 0 (by rw [System.outcomeCall, hjob]) h1 ?_
        simp [System.fails, hr, hjob]
    · cases hc
  | claimNext r =>
    simp only [System.storeCall] at hc
    split at hc
    · obtain ⟨id, -, rfl⟩ := Option.map_eq_some_iff.1 hc
      simp [EffectCall.logs, hretry] at hlogs
    · cases hc
  | enqueue | enqueueIdempotent | enqueueForAgent | authorizeUnknownRetry | confirmUnknownDelivered | redriveDeadLetter
  | takeover =>
    cases hc
    simp [EffectCall.logs, hretry] at hlogs
  | _ => cases hc

theorem released_of_opens (h : s.exec env a = some s') (hid : rec.id = i)
    (hline : s'.db.timeline i = s.db.timeline i ++ [e]) (he : e.Tells rec rec') (hc : s.storeCall env a = some c)
    (hlogs : c.logs e = true) (hopens : e.transition.opens = true) : dispatchesSince i s'.history = 0 := by
  have hreleases : a.Releases i := by
    subst hid
    have hfollows := he.follows
    cases ht : e.transition with
    | enqueued =>
      rw [ht] at hfollows
      cases hfollows
    | retryAuthorized | operatorRedrive =>
      cases a with
      | authorizeUnknownRetry id actor reason =>
        cases hc
        simp only [EffectCall.logs, Bool.and_eq_true, beq_iff_eq] at hlogs
        exact .inl ⟨actor, reason, by rw [← hlogs.1, he.id]⟩
      | redriveDeadLetter id actor reason =>
        cases hc
        simp only [EffectCall.logs, Bool.and_eq_true, beq_iff_eq] at hlogs
        exact .inr ⟨actor, reason, by rw [← hlogs.1, he.id]⟩
      | enqueue | enqueueIdempotent | enqueueForAgent | confirmUnknownDelivered | takeover =>
        cases hc
        simp [EffectCall.logs, ht] at hlogs
      | claimNext r =>
        simp only [System.storeCall] at hc
        split at hc
        · obtain ⟨id, -, rfl⟩ := Option.map_eq_some_iff.1 hc
          simp [EffectCall.logs, ht] at hlogs
        · cases hc
      | settle r =>
        simp only [System.storeCall] at hc
        split at hc
        · rename_i job outcome context hr
          cases hc
          cases outcome <;> simp [System.outcomeCall, EffectCall.logs, ht] at hlogs
        · cases hc
      | _ => cases hc
    | _ =>
      rw [ht] at hopens
      cases hopens
  rcases releases_history hreleases h with hdb | hhist
  · rw [hdb] at hline
    simp at hline
  · rw [hhist]
    simp [dispatchesSince]

theorem Spent.step (hm : ∀ r, (env.relay r).maxAttempts = m) (h1 : 1 ≤ m) (hs : s.Coherent env)
    (h : s.exec env a = some s') (hcount : counted env i s a = true) (hrec : s.db.effect i = some rec)
    (hspent : Spent m i s rec) {rec' : OutboxRec} (hrec' : s'.db.effect i = some rec') : Spent m i s' rec' := by
  rcases exec_dispatches (i := i) h with hle | ⟨hsends, hone, hdb⟩
  · rcases exec_row hs h hrec with ⟨heff, hline⟩ | ⟨rec₁, e, c, heff, hline, he, hc, hdb, hlogs⟩
    · obtain rfl : rec' = rec := Option.mem_unique hrec' heff
      exact hspent.mono hline hle
    · obtain rfl : rec' = rec₁ := Option.mem_unique hrec' heff
      cases hopens : e.transition.opens with
      | true =>
        exact hspent.opened h1 hline he hopens
          (released_of_opens h (id_of_effect hrec) hline he hc hlogs hopens)
      | false =>
        refine hspent.told h1 hline he hopens hle fun hretry => ?_
        have hpos := hspent.recorded
        exact retry_scheduled hm h1 hcount hrec (by omega) (hdb ▸ heff) he hc hlogs hretry
  · -- the dispatch starts under the condition: the row is in flight, and all before it is recorded
    rw [hdb, hrec, Option.some.injEq] at hrec'
    subst hrec'
    simp only [counted, hsends, hrec, Bool.and_eq_true, bne_self_eq_false, Bool.false_or, Option.any_some, beq_iff_eq,
      decide_eq_true_eq] at hcount
    obtain ⟨⟨⟨hflying, hall⟩, -⟩, -⟩ := hcount
    have hlive := hspent.live (.inr hflying)
    have hrecorded := hspent.recorded
    refine ⟨by rw [hdb]; exact hrecorded, by rw [hdb]; exact hspent.live, by omega, by rw [hdb]; omega, ?_, ?_⟩
    · intro hst
      rw [hflying] at hst
      cases hst
    · intro hst
      rw [hflying] at hst
      cases hst

theorem row_of_stores {row : OutboxRow} {logged : Bool} (hc : s.storeCall env a = some c)
    (hstores : s.db.stores c = some (row, logged)) : a.row? = some row ∧ logged = true := by
  have hif : ∀ {p : Bool} {row' : OutboxRow},
      (if p then none else some (row', true)) = some (row, logged) → some row' = some row ∧ logged = true := by
    intro p row' h
    cases p <;> simp_all
  cases a with
  | enqueue | enqueueIdempotent | enqueueForAgent =>
    cases hc
    exact hif hstores
  | authorizeUnknownRetry | confirmUnknownDelivered | redriveDeadLetter | takeover =>
    cases hc
    cases hstores
  | claimNext r =>
    simp only [System.storeCall] at hc
    split at hc
    · obtain ⟨id, -, rfl⟩ := Option.map_eq_some_iff.1 hc
      cases hstores
    · cases hc
  | settle r =>
    simp only [System.storeCall] at hc
    split at hc
    · rename_i job outcome context hr
      cases hc
      cases outcome <;> cases hstores
    · cases hc
  | _ => cases hc

theorem Spent.fresh (hk : Known s) (hs : s.Coherent env) (h : s.exec env a = some s')
    (hcount : counted env i s a = true) (h1 : 1 ≤ m) (hnone : s.db.effect i = none) {rec' : OutboxRec}
    (hrec' : s'.db.effect i = some rec') : Spent m i s' rec' := by
  have hsent : dispatchesSince i s'.history = 0 := by
    refine dispatchesSince_eq_zero fun r hmem => ?_
    obtain ⟨rec, -, heff⟩ := hk.row hs h hmem
    rw [hnone] at heff
    cases heff
  have hstep := exec_storeCall h
  rcases effectStep_move hstep with ⟨c, row, logged, r, hc, hstores, hrow⟩ | ⟨hmove, -⟩
  · obtain ⟨hhanded, rfl⟩ := row_of_stores hc hstores
    rw [effect_append hrow.outbox hrow.id hs.le_seq] at hrec'
    split at hrec'
    · rename_i hid
      obtain rfl := Option.some.inj hrec'
      obtain ⟨e, hev, heid, htr⟩ := hrow.logged rfl
      have hline : attemptsSince (s'.db.timeline i) = 0 := by
        rw [timeline_append hev, List.filter_cons_of_pos (by simp [heid, hid]), List.filter_nil, attemptsSince_snoc,
          countEvent, htr]
        rfl
      have hpos : 0 ≤ r.attempts := by
        unfold counted at hcount
        rw [Bool.and_eq_true, hhanded, hid, hrow.id] at hcount
        rw [hrow.attempts]
        simpa using hcount.2
      exact ⟨by omega, fun _ => .inl hline, by omega, by omega, fun _ => by omega, fun _ => by omega⟩
    · rw [hnone] at hrec'
      cases hrec'
  · rcases hmove.row hs.nodup i with ⟨heff, -⟩ | ⟨r, rec₁, e, hr, -⟩
    · rw [heff, hnone] at hrec'
      cases hrec'
    · rw [hnone] at hr
      cases hr

structure SpentRun (env : Env J) (m : Nat) (i : Int) (s : System J) : Prop where
  coherent : s.Coherent env
  known : Known s
  spent : ∀ rec, s.db.effect i = some rec → Spent m i s rec

theorem SpentRun.step (hm : ∀ r, (env.relay r).maxAttempts = m) (h1 : 1 ≤ m) (hr : SpentRun env m i s)
    (h : s.exec env a = some s') (hcount : counted env i s a = true) : SpentRun env m i s' where
  coherent := exec_coherent hr.coherent h
  known := hr.known.step hr.coherent h
  spent := by
    intro rec' hrec'
    cases hrec : s.db.effect i with
    | none => exact .fresh hr.known hr.coherent h hcount h1 hrec hrec'
    | some rec => exact (hr.spent rec hrec).step hm h1 hr.coherent h hcount hrec hrec'

theorem SpentRun.start (hstart : s.Start) : SpentRun env m i s where
  coherent := start_coherent hstart
  known := by
    intro r j hmem
    rw [hstart.history] at hmem
    cases hmem
  spent := by
    intro rec hrec
    unfold Db.effect at hrec
    rw [hstart.outbox] at hrec
    cases hrec

theorem not_ready (hs : s.Coherent env) (hrec : s.db.effect i = some rec)
    (hst : rec.status ≠ .pending ∧ rec.status ≠ .inFlight) (nowTs bound : Int) :
    ∀ row ∈ readyPending s.db nowTs bound, row.id ≠ some i := by
  intro row hrow hid
  obtain ⟨rec₁, rfl, hready, heff⟩ := held_of_ready hs.nodup hrow
  have hi : rec₁.id = i := Option.some.inj hid
  obtain rfl : rec = rec₁ := Option.mem_unique hrec (hi ▸ heff)
  simp only [OutboxRec.ready, Bool.or_eq_true, Bool.and_eq_true, beq_iff_eq] at hready
  rcases hready with hready | hready
  · exact hst.1 hready.1
  · exact hst.2 hready.1

/-- **The retry budget bounds the dispatches.**  In every run whose dispatches of row `i` are each counted before the
next, a row is sent at most `m` times before it is released again; once the last of them is over, the row is dead,
unknown or delivered, and no relay is handed it. -/
theorem dispatches_within_budget (hm : ∀ r, (env.relay r).maxAttempts = m) (h1 : 1 ≤ m) {s₀ : System J}
    {as : List (Action J)} (hstart : s₀.Start)
    (hrun : Run (fun s a s' => s.Step env a s' ∧ counted env i s a = true) s₀ as s) :
    dispatchesSince i s.history ≤ m ∧
    ∀ rec, s.db.effect i = some rec → dispatchesSince i s.history = m → rec.status ≠ .inFlight →
      (rec.status = .deadLetter ∨ rec.status = .unknown ∨ rec.status = .delivered) ∧
      ∀ nowTs bound, ∀ row ∈ readyPending s.db nowTs bound, row.id ≠ some i := by
  have hr : SpentRun env m i s :=
    run_invariant hrun (.start hstart) fun _ _ _ hr h => hr.step hm h1 h.1 h.2
  constructor
  · cases hrec : s.db.effect i with
    | some rec => exact (hr.spent rec hrec).sent
    | none =>
      rw [dispatchesSince_eq_zero fun r hmem => ?_]
      · exact Nat.zero_le m
      · obtain ⟨rec, -, heff⟩ := hr.known r i hmem
        rw [hrec] at heff
        cases heff
  · intro rec hrec hall hover
    have hspent := hr.spent rec hrec
    have hpending : rec.status ≠ .pending := by
      intro hst
      have := hspent.pending hst
      have := hspent.live (.inl hst)
      have := hspent.recorded
      omega
    have hfailed : rec.status ≠ .failed := by
      intro hst
      have := hspent.failed hst
      omega
    refine ⟨?_, not_ready hr.coherent hrec ⟨hpending, hover⟩⟩
    cases hst : rec.status <;> simp_all

/-- Every relay sends `transport.send` through a sink that deduplicates, `m` times at most. -/
def budgetEnv (m : Nat) : Env String :=
  { sampleEnv with
    relay := fun r =>
      { pid := r, registry := fun kind => if kind = "transport.send" then some .idempotencyKey else none
        maxAttempts := m } }

def refusedTwice : List (Action String) :=
  [.enqueue sampleRow, .beginDrain 0, .claimNext 0, .proceed 0, .dispatchReturned 0 (.notAccepted "busy"), .settle 0,
   .setClock 10, .beginDrain 1, .claimNext 1, .proceed 1, .dispatchReturned 1 (.notAccepted "busy"), .settle 1]

theorem dispatches_within_budget_refused : ∃ s rec,
    Run (fun s a s' => s.Step (budgetEnv 2) a s' ∧ counted (budgetEnv 2) 1 s a = true) emptySystem refusedTwice s ∧
    s.db.effect 1 = some rec ∧ dispatchesSince 1 s.history = 2 ∧
    (rec.status = .deadLetter ∨ rec.status = .unknown ∨ rec.status = .delivered) ∧
    ∀ nowTs bound, ∀ row ∈ readyPending s.db nowTs bound, row.id ≠ some 1 := by
  have hobs : (emptySystem.execAll (budgetEnv 2) (counted (budgetEnv 2) 1) refusedTwice).map
      (fun s => (dispatchesSince 1 s.history, (s.db.effect 1).map OutboxRec.status)) =
        some (2, some .deadLetter) := by decide +kernel
  obtain ⟨s, hs, hobs⟩ := Option.map_eq_some_iff.1 hobs
  rw [Prod.mk.injEq] at hobs
  obtain ⟨rec, hrec, hst⟩ := Option.map_eq_some_iff.1 hobs.2
  exact ⟨s, rec, run_of_execAll hs, hrec, hobs.1,
    (dispatches_within_budget (fun _ => rfl) (by decide) emptySystem_start (run_of_execAll hs)).2 rec hrec hobs.1
      (by rw [hst]; decide)⟩

def reclaimedSend : List (Action String) :=
  [.enqueue sampleRow, .beginDrain 0, .claimNext 0, .proceed 0, .crash 0, .setClock 200, .beginDrain 1, .claimNext 1,
   .proceed 1]

/-- **A row with one attempt is sent twice.** -/
theorem budget_exceeded : (∀ r, ((budgetEnv 1).relay r).maxAttempts = 1) ∧
    ∃ s, Run (System.Step (budgetEnv 1)) emptySystem reclaimedSend s ∧ dispatchesSince 1 s.history = 2 := by
  have hobs : (emptySystem.execAll (budgetEnv 1) (fun _ _ => true) reclaimedSend).map
      (fun s => dispatchesSince 1 s.history) = some 2 := by decide +kernel
  obtain ⟨s, hs, hobs⟩ := Option.map_eq_some_iff.1 hobs
  exact ⟨fun _ => rfl, s, run_mono (fun _ _ _ h => h.1) (run_of_execAll hs), hobs⟩

end Execlaw
