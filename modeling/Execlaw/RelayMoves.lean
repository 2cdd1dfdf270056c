import Execlaw.RelayRows
/-!
# RelayMoves — what one step does to the relays

A relay's rows are rows it read, of ids and kinds the table still has.
-/
namespace Execlaw

/-! ## What a step does to the relays -/

section Relays

variable {J : Type} {env : Env J} {s s' : System J} {a : Action J}

/-- **Where one step may take a relay**: it reads fresh rows or keeps some of its own, works on a row it was working on
or claimed one, and asks only a sink that can be asked. -/
structure RelayMove (env : Env J) (s : System J) (q : Nat) (x : Relay) : Prop where
  rows : x.rows ⊆ (s.relays q).rows ∨ x.rows = readyPending s.db s.clock (env.relay q).batchSize
  job : ∀ job phase, x = .working job phase →
    (∃ phase', s.relays q = .working job phase') ∨ job.row.id = some job.id
  lookup : ∀ job e, x = .working job (.reconciling e) →
    (env.relay q).registry job.row.effectKind = some .statusLookup

theorem RelayMove.idle (q : Nat) (result : Option (Except String Nat)) : RelayMove env s q (.idle result) where
  rows := .inl (List.nil_subset _)
  job := fun _ _ h => by cases h
  lookup := fun _ _ h => by cases h

variable {q : Nat}

theorem RelayMove.scanning {rest : List OutboxRow} (h : rest ⊆ (s.relays q).rows) (nowTs : Int) (n : Nat) :
    RelayMove env s q (.scanning nowTs rest n) where
  rows := .inl h
  job := fun _ _ h => by cases h
  lookup := fun _ _ h => by cases h

variable {job : Job}

theorem RelayMove.working {phase phase' : Phase} (h : s.relays q = .working job phase)
    (hask : ∀ e, phase' = .reconciling e → (env.relay q).registry job.row.effectKind = some .statusLookup) :
    RelayMove env s q (.working job phase') where
  rows := .inl (by rw [h]; exact List.Subset.refl _)
  job := fun _ _ hx => by
    cases hx
    exact .inl ⟨phase, h⟩
  lookup := fun _ e hx => by
    cases hx
    exact hask e rfl

theorem claimNext_relays {nowTs : Int} {row : OutboxRow} {rest : List OutboxRow} {n : Nat}
    (h : s.relays q = .scanning nowTs (row :: rest) n) :
    ∃ x, (s.claimNext env q nowTs row rest n).relays = Function.update s.relays q x ∧ RelayMove env s q x := by
  have hrest : rest ⊆ (s.relays q).rows := by
    rw [h]
    exact List.subset_cons_self row rest
  unfold System.claimNext
  cases hid : row.id with
  | none => exact ⟨_, rfl, .scanning hrest _ _⟩
  | some id =>
    rcases claimWithLease_cases id s!"relay:{(env.relay q).pid}:{nowTs}" nowTs 120 s.db with
      hres | ⟨rec, rec', db', hres, -⟩
    · simp only [hres]
      exact ⟨_, rfl, .scanning hrest _ _⟩
    · simp only [hres]
      refine ⟨_, rfl, .inl ?_, ?_, ?_⟩
      · rw [h]
        exact List.Subset.refl _
      · intro job phase hx
        cases hx
        exact .inr hid
      · intro job e hx
        cases hx

variable {phase : Phase}

theorem proceed_relays (h : s.relays q = .working job phase) :
    ∃ x, (s.proceed env q job).relays = Function.update s.relays q x ∧ RelayMove env s q x := by
  unfold System.proceed
  cases hreg : (env.relay q).registry job.row.effectKind with
  | none => exact ⟨_, rfl, .working h (fun e he => by cases he)⟩
  | some safety =>
    simp only
    split
    · cases safety with
      | idempotencyKey | noGuarantee => exact ⟨_, rfl, .working h (fun e he => by cases he)⟩
      | statusLookup => exact ⟨_, rfl, .working h (fun e _ => hreg)⟩
    · exact ⟨_, rfl, .working h (fun e he => by cases he)⟩

theorem dispatchReturned_relays (h : s.relays q = .working job phase) (result : DispatchResult) :
    ∃ x, (s.dispatchReturned env q job result).relays = Function.update s.relays q x ∧ RelayMove env s q x := by
  cases result with
  | ok receipt | notAccepted error => exact ⟨_, rfl, .working h (fun e he => by cases he)⟩
  | outcomeUnknown error =>
    simp only [System.dispatchReturned]
    split
    · exact ⟨_, rfl, .working h (fun e he => by cases he)⟩
    · rename_i hreg
      exact ⟨_, rfl, .working h (fun e _ => hreg)⟩
    · exact ⟨_, rfl, .working h (fun e he => by cases he)⟩

theorem reconcileReturned_relays (h : s.relays q = .working job phase) (error : Option String)
    (result : Except String ReconciliationResult) :
    ∃ x, (s.reconcileReturned q job error result).relays = Function.update s.relays q x ∧ RelayMove env s q x := by
  unfold System.reconcileReturned
  split <;> exact ⟨_, rfl, .working h (fun e he => by cases he)⟩

theorem settle_relays (h : s.relays q = .working job phase) (context : String) (outcome : Outcome) :
    ∃ x, (s.settle env q job context outcome).relays = Function.update s.relays q x ∧ RelayMove env s q x := by
  have hrest : job.rest ⊆ (s.relays q).rows := by
    rw [h]
    exact List.subset_cons_self job.row job.rest
  have hsettled : ∀ {α : Type} (counted : Nat) (res : Except DbError α × Db),
      ∃ x, (s.settled q job context counted res).relays = Function.update s.relays q x ∧ RelayMove env s q x := by
    intro α counted res
    obtain ⟨x, db⟩ := res
    cases x with
    | ok _ => exact ⟨_, rfl, .scanning hrest _ _⟩
    | error e => exact ⟨_, rfl, .idle q _⟩
  cases outcome with
  | delivered receipt | failure error | unknown reason => exact hsettled 1 _
  | noDispatcher => exact ⟨_, rfl, .scanning hrest _ _⟩

theorem call_relays (s : System J) {α : Type} (note : α → List (Entry J)) (res : Except DbError α × Db) :
    (s.call note res).relays = s.relays ∧ (s.call note res).claims = s.claims := by
  obtain ⟨x, db⟩ := res
  cases x <;> exact ⟨rfl, rfl⟩

theorem exec_others (ha : a.relay? = none) (h : s.exec env a = some s') :
    s'.relays = s.relays ∧ s'.claims = s.claims := by
  cases a with
  | setClock now =>
    cases h
    exact ⟨rfl, rfl⟩
  | recordOperatorAction conversationId channel recipient eventId seq payload =>
    cases h
    exact call_relays ..
  | enqueue | enqueueIdempotent | enqueueForAgent | authorizeUnknownRetry | confirmUnknownDelivered
  | redriveDeadLetter | assignAgent | takeover | handback =>
    cases h
    exact call_relays ..
  | _ => cases ha

theorem RelayStep.move (h : RelayStep env s q a s') :
    ∃ x, s'.relays = Function.update s.relays q x ∧ RelayMove env s q x := by
  cases h with
  | beginDrain => exact ⟨_, rfl, .inr rfl, (fun _ _ h => by cases h), (fun _ _ h => by cases h)⟩
  | claimNext hr => exact claimNext_relays hr
  | proceed hr => exact proceed_relays hr
  | dispatchReturned hr result => exact dispatchReturned_relays hr result
  | reconcileReturned hr result => exact reconcileReturned_relays hr _ result
  | settle hr => exact settle_relays hr _ _
  | finishDrain | crash => exact ⟨_, rfl, .idle q _⟩

theorem claimNext_history (env : Env J) (s : System J) (q : Nat) (nowTs : Int) (row : OutboxRow)
    (rest : List OutboxRow) (n : Nat) : (s.claimNext env q nowTs row rest n).history = s.history := by
  unfold System.claimNext
  repeat' split
  all_goals rfl

theorem settle_history (env : Env J) (s : System J) (q : Nat) (job : Job) (context : String) (outcome : Outcome) :
    (s.settle env q job context outcome).history = s.history ∧
    (s.settle env q job context outcome).claims = s.claims := by
  have hsettled : ∀ {α : Type} (counted : Nat) (res : Except DbError α × Db),
      (s.settled q job context counted res).history = s.history ∧
      (s.settled q job context counted res).claims = s.claims := by
    intro α counted res
    obtain ⟨x, db⟩ := res
    cases x <;> exact ⟨rfl, rfl⟩
  cases outcome with
  | delivered receipt | failure error | unknown reason => exact hsettled 1 _
  | noDispatcher => exact ⟨rfl, rfl⟩

theorem RelayStep.history (h : RelayStep env s q a s') : s'.history = s.history ∨
    ∃ job phase, s.relays q = .working job phase ∧
      (s'.history = .dispatch q job.id :: s.history ∨ s'.history = .notAccepted q job.id :: s.history) := by
  cases h with
  | claimNext hr => exact .inl (claimNext_history ..)
  | settle hr => exact .inl (settle_history ..).1
  | @proceed job hr =>
    unfold System.proceed
    repeat' split
    all_goals first
      | exact .inl rfl
      | exact .inr ⟨job, _, hr, .inl rfl⟩
  | @dispatchReturned job hr result =>
    unfold System.dispatchReturned
    split
    case h_2 => exact .inr ⟨job, _, hr, .inr rfl⟩
    case h_3 => left; split <;> rfl
    exact .inl rfl
  | @reconcileReturned job error hr result =>
    unfold System.reconcileReturned
    split
    case h_2 => exact .inr ⟨job, _, hr, .inl rfl⟩
    all_goals exact .inl rfl
  | beginDrain | finishDrain | crash => exact .inl rfl

theorem held_of_ready (hnd : (s.db.outbox.map OutboxRec.id).Nodup) {nowTs bound : Int} {row : OutboxRow}
    (h : row ∈ readyPending s.db nowTs bound) :
    ∃ rec, row = rowToOutbox rec ∧ rec.ready nowTs ∧ s.db.effect rec.id = some rec := by
  unfold readyPending at h
  obtain ⟨rec, hrec, rfl⟩ := List.mem_map.1 h
  have hsub : rec ∈ Table.orderBy OutboxRec.id (s.db.outbox.filter (fun r => r.ready nowTs)) := by
    unfold limit at hrec
    split at hrec
    · exact hrec
    · exact List.mem_of_mem_take hrec
  rw [Table.mem_orderBy, List.mem_filter] at hsub
  exact ⟨rec, rfl, hsub.2, effect_of_mem hnd hsub.1⟩

theorem OutboxStep.ids {db' : Db} (h : OutboxStep env s a db') (hs : s.Coherent env) :
    (db'.outbox.map OutboxRec.id).Nodup ∧ ∀ id ∈ db'.outbox.map OutboxRec.id, id ≤ db'.outboxSeq := by
  cases h with
  | quiet hsame =>
    rw [hsame]
    exact ⟨hs.nodup, hs.le_seq⟩
  | handed _ hout hseq =>
    rw [hout, hseq]
    exact ⟨hs.nodup, hs.le_seq⟩
  | wrote hw =>
    rw [hw.ids, hw.seq]
    exact ⟨hs.nodup, hs.le_seq⟩
  | stored _ hins => exact nodup_inserts hins hs.le_seq hs.nodup
  | withdrew _ hseq hids =>
    rw [hids, hseq]
    exact ⟨hs.nodup, hs.le_seq⟩

theorem exec_coherent (hs : s.Coherent env) (h : s.exec env a = some s') : s'.Coherent env := by
  have hout := exec_outbox hs h
  obtain ⟨hnd, hle⟩ := hout.ids hs
  -- a row of the table before the step is one after it
  have hheld : ∀ row : OutboxRow, (∃ rec, row.id = some rec.id ∧ s.db.effect rec.id = some rec ∧
      rec.effectKind = row.effectKind) → ∃ rec, row.id = some rec.id ∧ s'.db.effect rec.id = some rec ∧
      rec.effectKind = row.effectKind := by
    rintro row ⟨rec, hid, heff, hkind⟩
    obtain ⟨rec', heff', hsame, -⟩ := hout.effect hs heff
    exact ⟨rec', by rw [hsame.id, hid], by rw [hsame.id, heff'], by rw [hsame.kind, hkind]⟩
  cases ha : a.relay? with
  | none =>
    obtain ⟨hrel, -⟩ := exec_others ha h
    exact {
      nodup := hnd
      le_seq := hle
      held := fun r row hrow => hheld row (hs.held r row (by rwa [hrel] at hrow))
      job := by rw [hrel]; exact hs.job
      lookup := by rw [hrel]; exact hs.lookup }
  | some q =>
    obtain ⟨x, hrel, hmove⟩ := (exec_relay ha h).move
    refine ⟨hnd, hle, ?_, ?_, ?_⟩
    · intro r row hrow
      apply hheld
      rw [hrel] at hrow
      by_cases hr : r = q
      · subst hr
        rw [Function.update_self] at hrow
        rcases hmove.rows with hsub | hready
        · exact hs.held r row (hsub hrow)
        · rw [hready] at hrow
          obtain ⟨rec, rfl, -, heff⟩ := held_of_ready hs.nodup hrow
          exact ⟨rec, rfl, heff, rfl⟩
      · rw [Function.update_of_ne hr] at hrow
        exact hs.held r row hrow
    · intro r job phase hjob
      rw [hrel] at hjob
      by_cases hr : r = q
      · subst hr
        rw [Function.update_self] at hjob
        rcases hmove.job job phase hjob with ⟨phase', hold⟩ | hid
        · exact hs.job r job phase' hold
        · exact hid
      · rw [Function.update_of_ne hr] at hjob
        exact hs.job r job phase hjob
    · intro r job e hjob
      rw [hrel] at hjob
      by_cases hr : r = q
      · subst hr
        rw [Function.update_self] at hjob
        exact hmove.lookup job e hjob
      · rw [Function.update_of_ne hr] at hjob
        exact hs.lookup r job e hjob

theorem start_coherent (h : s.Start) : s.Coherent env where
  nodup := by rw [h.outbox]; exact List.nodup_nil
  le_seq := by rw [h.outbox]; intro id hid; cases hid
  held := fun r row hrow => by
    obtain ⟨result, hr⟩ := h.idle r
    rw [hr] at hrow
    cases hrow
  job := fun r job phase hjob => by
    obtain ⟨result, hr⟩ := h.idle r
    rw [hr] at hjob
    cases hjob
  lookup := fun r job e hjob => by
    obtain ⟨result, hr⟩ := h.idle r
    rw [hr] at hjob
    cases hjob

theorem call_history (s : System J) {α : Type} (note : α → List (Entry J)) (res : Except DbError α × Db) :
    (s.call note res).history = s.history ∨ ∃ a, res.1 = .ok a ∧ (s.call note res).history = note a ++ s.history := by
  obtain ⟨x, db⟩ := res
  cases x with
  | ok a => exact .inr ⟨a, rfl, rfl⟩
  | error e => exact .inl rfl

theorem exec_history (ha : a.scope? env = none) (h : s.exec env a = some s') : s'.history = s.history ∨
    ∃ e, s'.history = e :: s.history ∧
      ((∃ r id, e = .dispatch r id ∨ e = .notAccepted r id) ∨ ∃ id, e = .released id ∧ a.Releases id) := by
  cases hr : a.relay? with
  | some q =>
    rcases (exec_relay hr h).history with heq | ⟨job, phase, -, heq | heq⟩
    · exact .inl heq
    · exact .inr ⟨_, heq, .inl ⟨_, _, .inl rfl⟩⟩
    · exact .inr ⟨_, heq, .inl ⟨_, _, .inr rfl⟩⟩
  | none =>
    cases a with
    | setClock now =>
      cases h
      exact .inl rfl
    | enqueue | enqueueIdempotent | enqueueForAgent | confirmUnknownDelivered =>
      cases h
      rcases call_history s _ _ with heq | ⟨_, _, heq⟩
      · exact .inl heq
      · exact .inl heq
    | authorizeUnknownRetry id actor reason =>
      cases h
      rcases call_history s _ _ with heq | ⟨_, _, heq⟩
      · exact .inl heq
      · exact .inr ⟨_, heq, .inr ⟨id, rfl, .inl ⟨actor, reason, rfl⟩⟩⟩
    | redriveDeadLetter id actor reason =>
      cases h
      rcases call_history s _ _ with heq | ⟨_, _, heq⟩
      · exact .inl heq
      · exact .inr ⟨_, heq, .inr ⟨id, rfl, .inr ⟨actor, reason, rfl⟩⟩⟩
    | assignAgent | takeover | recordOperatorAction | handback => cases ha
    | beginDrain | claimNext | finishDrain | proceed | dispatchReturned | reconcileReturned | settle | crash => cases hr

end Relays

end Execlaw
