import Execlaw.RelayMoves
/-!
# OutcomeFence — late outcomes

The contract is `complete_by` of the transition model: a worker settles a row only while its own lease stands.  The
store takes a row id and nothing else, so the fence has to come from the runs: where every outcome is written by the
relay that holds the row, a settled row changes only by an operator's decision.
-/
namespace Execlaw

open Steps

variable {J : Type} {env : Env J} {s s' : System J} {a : Action J} {i : Int}

def System.holds (s : System J) (r : Nat) (id : Int) : Bool :=
  s.claims id == some r && (s.db.effect id).map OutboxRec.status == some .inFlight

def Outcome.isUnknown : Outcome → Bool
  | .unknown _ => true
  | _ => false

/-- **An outcome is written under a standing lease**, or it is a `mark_unknown` of a row no longer in flight. -/
def fenced (s : System J) : Action J → Bool
  | .settle r =>
    match s.relays r with
    | .working job (.settling outcome _) =>
      s.holds r job.id || (outcome.isUnknown && (s.db.effect job.id).map OutboxRec.status != some .inFlight)
    | _ => true
  | _ => true

def OutboxStatus.settled : OutboxStatus → Bool
  | .delivered | .deadLetter | .failed | .unknown => true
  | .pending | .inFlight => false

def Action.Decides (i : Int) (a : Action J) : Prop :=
  a.Releases i ∨ ∃ actor receipt, a = .confirmUnknownDelivered i actor receipt

/-! ## One step -/

variable {outcome : Outcome} {context : String}

theorem settle_db {r : Nat} {job : Job} :
    (s.settle env r job context outcome).db = match outcome with
      | .delivered receipt => (markDeliveredWithReceipt job.id receipt s.clock s.db).2
      | .failure error =>
        (recordFailure job.id error (env.relay r).maxAttempts (backoffSecs job.row) s.clock s.db).2
      | .unknown reason => (markUnknown job.id reason s.clock s.db).2
      | .noDispatcher => (recordFailure job.id s!"no dispatcher for '{job.row.effectKind}'" 1 0 s.clock s.db).2 := by
  have hsettled : ∀ {α : Type} (counted : Nat) (res : Except DbError α × Db),
      (s.settled r job context counted res).db = res.2 := by
    intro α counted res
    obtain ⟨x, db⟩ := res
    cases x <;> rfl
  cases outcome with
  | delivered receipt | failure error | unknown reason => exact hsettled 1 _
  | noDispatcher => rfl

theorem settle_keeps_iff (hs : s.Coherent env) {r : Nat} {job : Job}
    (hr : s.relays r = .working job (.settling outcome context)) :
    (s.settle env r job context outcome).db = s.db ↔
      (outcome.isUnknown && (s.db.effect job.id).map OutboxRec.status != some .inFlight) = true := by
  obtain ⟨rec, -, heff, -⟩ := hs.effect_job hr
  rw [settle_db]
  cases outcome with
  | delivered receipt =>
    obtain ⟨db', hres, hw⟩ := markDeliveredWithReceipt_eq heff receipt s.clock
    simp [hres, hw.ne, Outcome.isUnknown]
  | failure error =>
    obtain ⟨db', hres, hw⟩ := recordFailure_eq heff error (env.relay r).maxAttempts (backoffSecs job.row) s.clock
    simp [hres, hw.ne, Outcome.isUnknown]
  | noDispatcher =>
    obtain ⟨db', hres, hw⟩ := recordFailure_eq heff s!"no dispatcher for '{job.row.effectKind}'" 1 0 s.clock
    simp only [hres, hw.ne, Outcome.isUnknown]
    simp
  | unknown reason =>
    by_cases hst : rec.status = .inFlight
    · obtain ⟨db', rec', hres, hw, -⟩ := markUnknown_inFlight heff hst reason s.clock
      simp [hres, hw.ne, Outcome.isUnknown, heff, hst]
    · have hne : (s.db.effect job.id).map OutboxRec.status ≠ some .inFlight := by simpa [heff] using hst
      simp [markUnknown_settled hne, Outcome.isUnknown, heff, hst]

theorem stale_settle_iff (hs : s.Coherent env) {r : Nat} {job : Job}
    (hr : s.relays r = .working job (.settling outcome context)) (hstale : s.holds r job.id = false)
    (h : s.Step env (.settle r) s') : s'.db = s.db ↔ fenced s (.settle r) = true := by
  have hs' : s' = s.settle env r job context outcome := by
    unfold System.Step at h
    simp only [System.exec, hr] at h
    exact (Option.some.inj h).symm
  rw [hs', settle_keeps_iff hs hr]
  simp [fenced, hr, hstale]

theorem fenced_step_settled (hs : s.Coherent env) (h : s.Step env a s') (hf : fenced s a = true) {rec : OutboxRec}
    (hrec : s.db.effect i = some rec) (hset : rec.status.settled = true) (hno : ¬ a.Decides i) :
    ∃ rec', s'.db.effect i = some rec' ∧ rec'.status = rec.status := by
  obtain rfl : rec.id = i := id_of_effect hrec
  obtain ⟨rec', heff, -, hcause⟩ := (exec_outbox hs h).effect hs hrec
  refine ⟨rec', heff, ?_⟩
  have hnot : rec.status ≠ .inFlight := by
    intro hfl
    rw [hfl] at hset
    cases hset
  -- an outcome that writes the row would be written by its holder, and the row is not in flight
  have hlost : ∀ {r : Nat} {job : Job} {outcome : Outcome} {context : String}, a = .settle r →
      s.relays r = .working job (.settling outcome context) → job.id = rec.id → outcome.isUnknown = true := by
    rintro r job outcome context rfl hr hid
    simp [fenced, hr, System.holds, hid, hrec, hnot] at hf
    exact hf
  rcases hcause with rfl | hcause | ⟨_, _, _, _, -, -, -, hwd⟩
  · rfl
  · generalize rec'.status = st at hcause ⊢
    cases hcause with
    | claimed _ _ hc =>
      rcases status_of_claimable hc with hp | hp <;> rw [hp] at hset <;> cases hset
    | delivered hr hid | failed hr hid | undispatched hr hid => cases hlost rfl hr hid
    | doubted _ _ hfl => exact absurd hfl hnot
    | authorized => exact absurd (.inl (.inl ⟨_, _, rfl⟩)) hno
    | redriven => exact absurd (.inl (.inr ⟨_, _, rfl⟩)) hno
    | confirmed => exact absurd (.inr ⟨_, _, rfl⟩) hno
  · rcases (withdrawn_iff.1 hwd).2.2 with hp | hp <;> rw [hp] at hset <;> cases hset

theorem run_coherent {s₀ : System J} {as : List (Action J)} (hrun : Run (System.Step env) s₀ as s)
    (h₀ : s₀.Coherent env) : s.Coherent env :=
  run_invariant hrun h₀ (fun _ _ _ hs h => exec_coherent hs h)

def FencedStep (env : Env J) (s : System J) (a : Action J) (s' : System J) : Prop :=
  s.Step env a s' ∧ fenced s a = true

theorem fenced_run_settled : ∀ {as : List (Action J)} {s s' : System J}, Run (FencedStep env) s as s' →
    s.Coherent env → ∀ {rec : OutboxRec}, s.db.effect i = some rec → rec.status.settled = true →
    (∀ a ∈ as, ¬ a.Decides i) → ∃ rec', s'.db.effect i = some rec' ∧ rec'.status = rec.status
  | [], _, _, rfl, _, rec, hrec, _, _ => ⟨rec, hrec, rfl⟩
  | a :: as, s, s', ⟨m, hm, hrun⟩, hs, rec, hrec, hset, hno => by
    obtain ⟨rec₁, heff, hst⟩ := fenced_step_settled hs hm.1 hm.2 hrec hset (hno a List.mem_cons_self)
    obtain ⟨rec₂, heff₂, hst₂⟩ := fenced_run_settled hrun (exec_coherent hs hm.1) heff (by rw [hst]; exact hset)
      (fun b hb => hno b (List.mem_cons_of_mem a hb))
    exact ⟨rec₂, heff₂, hst₂.trans hst⟩

/-- **Lease fencing of outcomes.**  In every reachable state, an outcome written by a relay that lost the row changes
nothing exactly when it is fenced; and in a run of fenced steps, from any state of it on, a settled row keeps its status
until an operator decides on it. -/
theorem outcomes_fenced {s₀ : System J} (hstart : s₀.Start) :
    (∀ as s r job outcome context s', Run (System.Step env) s₀ as s →
      s.relays r = .working job (.settling outcome context) → s.holds r job.id = false → s.Step env (.settle r) s' →
      (s'.db = s.db ↔ fenced s (.settle r) = true)) ∧
    (∀ as bs m s i rec, Run (FencedStep env) s₀ as m → Run (FencedStep env) m bs s → m.db.effect i = some rec →
      rec.status.settled = true → (∀ a ∈ bs, ¬ a.Decides i) →
      ∃ rec', s.db.effect i = some rec' ∧ rec'.status = rec.status) := by
  constructor
  · intro as s r job outcome context s' hrun hr hstale h
    exact stale_settle_iff (run_coherent hrun (start_coherent hstart)) hr hstale h
  · intro as bs m s i rec hrun hrun' hrec hset hno
    have hm : m.Coherent env := run_coherent (run_mono (fun _ _ _ h => h.1) hrun) (start_coherent hstart)
    exact fenced_run_settled hrun' hm hrec hset hno

def unknownOutcome : List (Action String) :=
  [.enqueue sampleRow, .beginDrain 0, .claimNext 0, .proceed 0, .dispatchReturned 0 (.outcomeUnknown "timeout"),
   .settle 0, .finishDrain 0]

theorem outcomes_fenced_unknown : ∃ m s rec, Run (FencedStep sampleEnv) emptySystem unknownOutcome m ∧
    Run (FencedStep sampleEnv) m [.setClock 500, .beginDrain 1, .finishDrain 1] s ∧ m.db.effect 1 = some rec ∧
    rec.status = .unknown ∧ ∃ rec', s.db.effect 1 = some rec' ∧ rec'.status = .unknown := by
  have hobs : (emptySystem.execAll sampleEnv fenced unknownOutcome).map
      (fun m => ((m.db.effect 1).map OutboxRec.status,
        (m.execAll sampleEnv fenced [.setClock 500, .beginDrain 1, .finishDrain 1]).isSome)) =
        some (some .unknown, true) := by decide +kernel
  obtain ⟨m, hm, hobs⟩ := Option.map_eq_some_iff.1 hobs
  rw [Prod.mk.injEq] at hobs
  obtain ⟨rec, hrec, hst⟩ := Option.map_eq_some_iff.1 hobs.1
  obtain ⟨s, hs⟩ := Option.isSome_iff_exists.1 hobs.2
  have hrun := run_of_execAll hm
  have hrun' := run_of_execAll hs
  obtain ⟨rec', hrec', hst'⟩ := (outcomes_fenced emptySystem_start).2 _ _ m s 1 rec hrun hrun' hrec (by rw [hst]; rfl)
    (by
      intro a ha
      simp only [List.mem_cons, List.not_mem_nil, or_false] at ha
      rintro ((⟨_, _, rfl⟩ | ⟨_, _, rfl⟩) | ⟨_, _, rfl⟩) <;> simp at ha)
  exact ⟨m, s, rec, hrun, hrun', hrec, hst, rec', hrec', hst'.trans hst⟩

/-- Relay 0's dispatch outlives its lease; relay 1 reclaims the row and, not knowing what the sink did, marks it
unknown; then relay 0 hears that the effect was delivered. -/
def lateDelivery : List (Action String) :=
  [.enqueue sampleRow, .beginDrain 0, .claimNext 0, .proceed 0, .setClock 200, .beginDrain 1, .claimNext 1, .proceed 1,
   .settle 1, .dispatchReturned 0 (.ok ⟨none⟩)]

/-- **A relay that lost the row overwrites the outcome recorded since**, and the row leaves `unknown` without an
operator. -/
theorem late_outcome_overwrites : ∃ m s rec rec', Run (System.Step sampleEnv) emptySystem lateDelivery m ∧
    m.relays 0 = .working ⟨0, [], 0, 1, { sampleRow with id := some 1 }⟩ (.settling (.delivered none) "mark_delivered: ") ∧
    m.holds 0 1 = false ∧ m.Step sampleEnv (.settle 0) s ∧ s.db ≠ m.db ∧ m.db.effect 1 = some rec ∧
    rec.status = .unknown ∧ s.db.effect 1 = some rec' ∧ rec'.status = .delivered := by
  have hobs : (emptySystem.execAll sampleEnv (fun _ _ => true) lateDelivery).map (fun m =>
      (m.relays 0, m.holds 0 1, (m.db.effect 1).map OutboxRec.status,
        (m.exec sampleEnv (.settle 0)).map
          (fun s => (decide (s.db = m.db), (s.db.effect 1).map OutboxRec.status)))) =
      some (.working ⟨0, [], 0, 1, { sampleRow with id := some 1 }⟩
        (.settling (.delivered none) "mark_delivered: "), false, some .unknown,
        some (false, some .delivered)) := by decide +kernel
  obtain ⟨m, hm, hobs⟩ := Option.map_eq_some_iff.1 hobs
  simp only [Prod.mk.injEq] at hobs
  obtain ⟨hrelay, hholds, hunknown, hsettle⟩ := hobs
  obtain ⟨rec, hrec, hst⟩ := Option.map_eq_some_iff.1 hunknown
  obtain ⟨s, hs, hobs⟩ := Option.map_eq_some_iff.1 hsettle
  rw [Prod.mk.injEq] at hobs
  obtain ⟨rec', hrec', hst'⟩ := Option.map_eq_some_iff.1 hobs.2
  exact ⟨m, s, rec, rec', run_mono (fun _ _ _ h => h.1) (run_of_execAll hm), hrelay, hholds, hs,
    of_decide_eq_false hobs.1, hrec, hst, hrec', hst'⟩

end Execlaw
