import Execlaw.RelayMoves
/-!
# TakeoverFence — effects queued before a takeover

A takeover withdraws what earlier generations of the scope queued.  A withdrawn effect stays out of the relays' reach
until an operator releases it, as long as no late failure reschedules it and no handback forgets the generation.
-/
namespace Execlaw

open Steps

variable {J : Type} {env : Env J} {s s' : System J} {a : Action J}

/-! ## Withdrawn effects in the history -/

def TakenFrom (h : List (Entry J)) (rec : OutboxRec) : Prop :=
  ∃ newer older key g n, h = newer ++ .tookOver key g :: older ∧ rec.ownershipScopeKey = some key ∧
    rec.ownershipGeneration = some n ∧ n < g ∧ .released rec.id ∉ newer

def OutboxRec.before (rec : OutboxRec) (key : String) (g : Nat) : Bool :=
  rec.ownershipScopeKey == some key && (match rec.ownershipGeneration with | some n => decide (n < g) | none => false)

def takenFrom (rec : OutboxRec) : List (Entry J) → Bool
  | [] => false
  | .tookOver key g :: h => rec.before key g || takenFrom rec h
  | .released id :: h => id != rec.id && takenFrom rec h
  | .dispatch _ _ :: h | .notAccepted _ _ :: h | .assigned _ :: h | .acted _ _ _ _ _ :: h | .handedBack _ _ _ :: h =>
    takenFrom rec h

variable {rec : OutboxRec} {key : String}

theorem before_iff {g : Nat} : rec.before key g = true ↔
    rec.ownershipScopeKey = some key ∧ ∃ n, rec.ownershipGeneration = some n ∧ n < g := by
  unfold OutboxRec.before
  cases rec.ownershipGeneration <;> simp

theorem takenFrom_of : ∀ {newer : List (Entry J)} {older : List (Entry J)} {rec : OutboxRec} {key : String} {g : Nat},
    rec.before key g = true → .released rec.id ∉ newer → takenFrom rec (newer ++ .tookOver key g :: older) = true
  | [], older, rec, key, g, hb, _ => by simp [takenFrom, hb]
  | e :: newer, older, rec, key, g, hb, hno => by
    rw [List.mem_cons, not_or] at hno
    have ih : takenFrom rec (newer ++ .tookOver key g :: older) = true := takenFrom_of hb hno.2
    rw [List.cons_append]
    cases e with
    | tookOver => simp [takenFrom, ih]
    | released id =>
      have hne : id ≠ rec.id := fun h => hno.1 (by rw [h])
      simp [takenFrom, ih, hne]
    | dispatch | notAccepted | assigned | acted | handedBack => exact ih

theorem takenFrom_iff {h : List (Entry J)} : TakenFrom h rec → takenFrom rec h = true := by
  rintro ⟨newer, older, key, g, n, rfl, hscope, hgen, hlt, hno⟩
  exact takenFrom_of (before_iff.2 ⟨hscope, n, hgen, hlt⟩) hno

theorem takenFrom_same {rec rec' : OutboxRec} (hsame : rec.SameEffect rec') : ∀ (h : List (Entry J)),
    takenFrom rec' h = takenFrom rec h
  | [] => rfl
  | .tookOver key g :: h => by
    simp [takenFrom, OutboxRec.before, hsame.scope, hsame.generation, takenFrom_same hsame h]
  | .released id :: h => by simp only [takenFrom, hsame.id, takenFrom_same hsame h]
  | .dispatch _ _ :: h | .notAccepted _ _ :: h | .assigned _ :: h | .acted _ _ _ _ _ :: h | .handedBack _ _ _ :: h =>
    takenFrom_same hsame h

theorem tookOver_of_takenFrom : ∀ {h : List (Entry J)}, takenFrom rec h = true →
    ∃ key g, .tookOver key g ∈ h ∧ rec.before key g = true
  | .tookOver key g :: h, ht => by
    simp only [takenFrom, Bool.or_eq_true] at ht
    rcases ht with hb | ht
    · exact ⟨key, g, List.mem_cons_self, hb⟩
    · obtain ⟨key', g', hmem, hb⟩ := tookOver_of_takenFrom ht
      exact ⟨key', g', List.mem_cons_of_mem _ hmem, hb⟩
  | .released id :: h, ht => by
    simp only [takenFrom, Bool.and_eq_true] at ht
    obtain ⟨key, g, hmem, hb⟩ := tookOver_of_takenFrom ht.2
    exact ⟨key, g, List.mem_cons_of_mem _ hmem, hb⟩
  | .dispatch _ _ :: h, ht | .notAccepted _ _ :: h, ht | .assigned _ :: h, ht | .acted _ _ _ _ _ :: h, ht
  | .handedBack _ _ _ :: h, ht => by
    obtain ⟨key, g, hmem, hb⟩ := tookOver_of_takenFrom (h := h) ht
    exact ⟨key, g, List.mem_cons_of_mem _ hmem, hb⟩

/-! ## The condition -/

def Outcome.reschedules (env : Env J) (r : Nat) (rec : OutboxRec) : Outcome → Bool
  | .failure _ => rec.retrying (env.relay r).maxAttempts
  | .noDispatcher => rec.retrying 1
  | .delivered _ | .unknown _ => false

/-- **The fence is kept**: no failure reschedules an effect taken from its agent, and a handback that leaves no row
behind ends the scope's first generation. -/
def fenceKept (env : Env J) (s : System J) : Action J → Bool
  | .settle r =>
    match s.relays r with
    | .working job (.settling outcome _) =>
      match s.db.effect job.id with
      | some rec => !(takenFrom rec s.history && outcome.reschedules env r rec)
      | none => true
    | _ => true
  | .handback conversationId channel recipient generation =>
    match s.db.controller (env.scopeKey conversationId channel recipient) generation with
    | some own => own.previousAgentId.isSome || decide (own.generation ≤ 1)
    | none => true
  | _ => true

/-! ## The invariant -/

/-- **What a run that keeps the fence keeps**: an effect taken from its agent is settled, and every generation a takeover
reached is at most the scope's own, or the first where the scope has no row. -/
structure Fence (env : Env J) (s : System J) : Prop where
  coherent : s.Coherent env
  taken : ∀ i rec, s.db.effect i = some rec → takenFrom rec s.history = true →
    rec.status ≠ .pending ∧ rec.status ≠ .inFlight
  reached : ∀ key g, .tookOver key g ∈ s.history → g ≤ ((s.db.owner key).map OwnershipRow.generation).getD 1

theorem Fence.owned (hf : Fence env s) (hown : rec.Owned s.db) : takenFrom rec s.history = false := by
  cases ht : takenFrom rec s.history with
  | false => rfl
  | true =>
    obtain ⟨key, g, hmem, hb⟩ := tookOver_of_takenFrom ht
    obtain ⟨hscope, n, hgen, hlt⟩ := before_iff.1 hb
    have hle := hf.reached key g hmem
    rcases hown with ⟨hnone, -⟩ | ⟨own, hrow, hscope', hgen'⟩
    · rw [hnone] at hscope
      cases hscope
    · obtain rfl : own.scopeKey = key := Option.mem_unique hscope' hscope
      obtain rfl : own.generation = n := Option.mem_unique hgen' hgen
      rw [hrow] at hle
      exact absurd hlt (not_lt.2 hle)

theorem takenFrom_mono (ha : a.scope? env = none) (h : s.exec env a = some s') (ht : takenFrom rec s'.history = true) :
    takenFrom rec s.history = true := by
  rcases exec_history ha h with heq | ⟨e, heq, ⟨r, id, rfl | rfl⟩ | ⟨id, rfl, -⟩⟩
  · rwa [heq] at ht
  · rwa [heq] at ht
  · rwa [heq] at ht
  · rw [heq, takenFrom, Bool.and_eq_true] at ht
    exact ht.2

theorem Fence.taken_exec (hf : Fence env s) (ha : a.scope? env = none) (h : s.exec env a = some s')
    (hkept : fenceKept env s a = true) {rec rec' : OutboxRec} (hrec : s.db.effect rec.id = some rec)
    (hrec' : s'.db.effect rec.id = some rec') (ht : takenFrom rec' s'.history = true) :
    rec'.status ≠ .pending ∧ rec'.status ≠ .inFlight := by
  obtain ⟨rec₁, heff, hsame, hcause⟩ := (exec_outbox hf.coherent h).effect hf.coherent hrec
  obtain rfl : rec' = rec₁ := Option.mem_unique hrec' heff
  rw [takenFrom_same hsame] at ht
  have ht₀ := takenFrom_mono ha h ht
  obtain ⟨hnp, hnf⟩ := hf.taken rec.id rec hrec ht₀
  rcases hcause with rfl | hcause | ⟨_, _, _, _, rfl, -⟩
  · exact ⟨hnp, hnf⟩
  · constructor
    · intro hp
      rw [hp] at hcause
      rcases hcause.to_pending with ⟨r, job, outcome, context, budget, rfl, hr, hid, hretry, hout⟩ | hrel
      · -- the late failure the condition excludes
        have hresch : outcome.reschedules env r rec = true := by
          rcases hout with ⟨error, rfl, rfl⟩ | ⟨rfl, rfl⟩ <;> exact hretry
        simp [fenceKept, hr, hid, hrec, ht₀, hresch] at hkept
      · rcases releases_history hrel h with hdb | hhist
        · rw [hdb, hrec] at hrec'
          cases hrec'
          exact hnp hp
        · rw [hhist] at ht
          simp [takenFrom] at ht
    · intro hp
      generalize rec'.status = st at hcause hp
      subst hp
      generalize hst : OutboxStatus.inFlight = st at hcause
      cases hcause with
      | claimed _ _ hc =>
        rcases status_of_claimable hc with h | h
        · exact hnp h
        · exact hnf h
      | failed | undispatched =>
        unfold OutboxRec.afterFailure at hst
        split at hst <;> cases hst
      | delivered | doubted | authorized | confirmed | redriven => cases hst
  · cases ha

theorem reached_lt_next (hf : Fence env s) {g : Nat} (h : .tookOver key g ∈ s.history) :
    g ≤ s.db.nextGeneration key := by
  have := hf.reached key g h
  unfold Db.nextGeneration
  cases hown : s.db.owner key with
  | none => simpa [hown] using this
  | some own =>
    simp only [hown, Option.map_some, Option.getD_some] at this ⊢
    omega

theorem Fence.reached_scope (hf : Fence env s) (ha : a.scope? env = some key) (h : ScopeStep env s key a s')
    (hkept : fenceKept env s a = true) :
    ∀ k g, .tookOver k g ∈ s'.history → g ≤ ((s'.db.owner k).map OwnershipRow.generation).getD 1 := by
  intro k g hmem
  cases h with
  | refused => exact hf.reached k g hmem
  | @assigned conversationId channel recipient agentId hfree =>
    have hle := hf.reached k g (by simpa using hmem)
    by_cases hk : k = key
    · subst hk
      have hown : Table.byKey OwnershipRow.scopeKey k (s.db.ownership ++ [agentRow k conversationId agentId s.clock]) =
          some (agentRow k conversationId agentId s.clock) := owner_append_self hfree rfl
      simp only [Db.owner, hown]
      simpa [hfree, agentRow] using hle
    · have hown : Table.byKey OwnershipRow.scopeKey k
          (s.db.ownership ++ [agentRow key conversationId agentId s.clock]) = s.db.owner k := owner_append_of_ne hk
      simp only [Db.owner, hown]
      exact hle
  | tookOver _ hhands heff =>
    by_cases hk : k = key
    · subst hk
      simp only [hhands.owner, Option.map_some, generation_controllerRow, Option.getD_some]
      rcases List.mem_cons.1 hmem with he | hmem
      · cases he
        exact le_refl _
      · exact reached_lt_next hf hmem
    · rcases List.mem_cons.1 hmem with he | hmem
      · cases he
        exact absurd rfl hk
      · simp only [hhands.others k hk]
        exact hf.reached k g hmem
  | acted => exact hf.reached k g (by simpa using hmem)
  | @handedBack conversationId channel recipient payload own _ hown hcon hhands =>
    have hle := hf.reached k g (by simpa using hmem)
    by_cases hk : k = key
    · subst hk
      simp only [hhands.owner, hown, Option.map_some, Option.getD_some] at hle ⊢
      cases hprev : own.previousAgentId with
      | none =>
        have hcontrol : s.db.controller (env.scopeKey conversationId channel recipient) own.generation = some own := by
          rw [Option.some.inj ha]
          exact controller_eq_some.2 ⟨hown, hcon, rfl⟩
        simp [fenceKept, hcontrol, hprev] at hkept
        exact hle.trans hkept
      | some agentId => exact hle.trans (Nat.le_succ _)
    · simp only [hhands.others k hk]
      exact hle

theorem Fence.taken_scope (hf : Fence env s) (ha : a.scope? env = some key) (h : ScopeStep env s key a s')
    (hout : OutboxStep env s a s'.db) {rec rec' : OutboxRec} (hrec : s.db.effect rec.id = some rec)
    (hrec' : s'.db.effect rec.id = some rec') (ht : takenFrom rec' s'.history = true) :
    rec'.status ≠ .pending ∧ rec'.status ≠ .inFlight := by
  obtain ⟨rec₁, heff, hsame, hcause⟩ := hout.effect hf.coherent hrec
  obtain rfl : rec' = rec₁ := Option.mem_unique hrec' heff
  rw [takenFrom_same hsame] at ht
  rcases hcause with rfl | hcause | ⟨_, _, _, _, -, -, rfl, -⟩
  · cases h with
    | refused | assigned | acted | handedBack => exact hf.taken _ rec' hrec ht
    | tookOver _ _ hmap =>
      simp only [takenFrom, Bool.or_eq_true] at ht
      rcases ht with hb | ht
      · -- a row the takeover left alone was not open
        rw [hmap, hrec, Option.map_some, Option.some.injEq] at hrec'
        by_contra hopen
        have hst : rec'.status = .pending ∨ rec'.status = .inFlight := by
          by_contra hcon
          exact hopen (not_or.1 hcon)
        obtain ⟨hscope, n, hgen, hlt⟩ := before_iff.1 hb
        rw [if_pos (withdrawn_iff.2 ⟨hscope, ⟨n, hgen, hlt⟩, hst⟩)] at hrec'
        rcases status_withdraw rec' with hw | hw <;> rw [hrec'] at hw <;> rw [hw] at hst <;>
          rcases hst with hst | hst <;> cases hst
      · exact hf.taken _ rec' hrec ht
  · generalize rec'.status = st at hcause
    cases hcause <;> cases ha
  · rcases status_withdraw rec with hw | hw <;> rw [hw] <;> exact ⟨by decide, by decide⟩

theorem Fence.step (hf : Fence env s) (h : s.exec env a = some s') (hkept : fenceKept env s a = true) :
    Fence env s' := by
  have hout := exec_outbox hf.coherent h
  refine ⟨exec_coherent hf.coherent h, ?_, ?_⟩
  · intro i rec' hrec' ht
    cases hrec : s.db.effect i with
    | none =>
      obtain ⟨ha, hown⟩ := hout.fresh hf.coherent hrec hrec'
      have ht₀ := takenFrom_mono ha h ht
      rw [hf.owned hown] at ht₀
      cases ht₀
    | some rec =>
      obtain rfl : rec.id = i := id_of_effect hrec
      cases ha : a.scope? env with
      | none => exact hf.taken_exec ha h hkept hrec hrec' ht
      | some key => exact hf.taken_scope ha (exec_scope ha h) hout hrec hrec' ht
  · cases ha : a.scope? env with
    | some key => exact hf.reached_scope ha (exec_scope ha h) hkept
    | none =>
      intro k g hmem
      have hown : s'.db.owner k = s.db.owner k := by
        unfold Db.owner
        rw [(hout.scopes ha).1]
      rw [hown]
      apply hf.reached
      rcases exec_history ha h with heq | ⟨e, heq, ⟨r, id, rfl | rfl⟩ | ⟨id, rfl, -⟩⟩ <;> simpa [heq] using hmem

theorem start_fence (h : s.Start) : Fence env s where
  coherent := start_coherent h
  taken := fun i rec _ ht => by
    rw [h.history] at ht
    cases ht
  reached := fun key g hmem => by
    rw [h.history] at hmem
    cases hmem

theorem enqueueForAgent_stale {db : Db} {own : OwnershipRow} (hown : db.owner key = some own) {generation : Nat}
    (hlt : generation < own.generation) (row : OutboxRow) (agentId : String) (now : Int) :
    enqueueIdempotentForAgent row key agentId generation now db =
      (.error (.invariant "automatic agent lost transport ownership"), db) := by
  have hcur : (EffectOwner.mk key agentId generation).current db = false := by
    simp [EffectOwner.current, hown, Nat.ne_of_gt hlt]
  simp [enqueueIdempotentForAgent, enqueueIdempotentGuarded, transaction, hcur]

/-- **The takeover fence.**  In every run that keeps the fence, an effect queued under a generation before a committed
takeover of its scope is neither pending nor in flight unless an operator released it since; and no effect is ever
stored for an agent that presents a generation its scope has left. -/
theorem takeover_fences {s₀ : System J} {as : List (Action J)} (hstart : s₀.Start)
    (hrun : Run (fun s a s' => s.Step env a s' ∧ fenceKept env s a = true) s₀ as s) :
    (∀ rec ∈ s.db.outbox, TakenFrom s.history rec → rec.status ≠ .pending ∧ rec.status ≠ .inFlight) ∧
    (∀ row key agentId generation own, s.db.owner key = some own → generation < own.generation →
      enqueueIdempotentForAgent row key agentId generation s.clock s.db =
        (.error (.invariant "automatic agent lost transport ownership"), s.db)) := by
  have hf : Fence env s := run_invariant hrun (start_fence hstart) (fun _ _ _ hf h => hf.step h.1 h.2)
  constructor
  · intro rec hmem htaken
    exact hf.taken rec.id rec (effect_of_mem hf.coherent.nodup hmem) (takenFrom_iff htaken)
  · intro row key agentId generation own hown hlt
    exact enqueueForAgent_stale hown hlt row agentId s.clock

def takenInFlight : List (Action String) :=
  [.assignAgent "c1" "signal" "peer" "watcher", .enqueueForAgent sampleRow "c1/signal/peer" "watcher" 1, .beginDrain 0,
   .claimNext 0, .proceed 0, .takeover "c1" "signal" "peer"]

theorem takeover_fences_in_flight : ∃ s rec, Run (fun s a s' => s.Step sampleEnv a s' ∧ fenceKept sampleEnv s a = true)
      emptySystem takenInFlight s ∧
    rec ∈ s.db.outbox ∧ TakenFrom s.history rec ∧ rec.status ≠ .pending ∧ rec.status ≠ .inFlight := by
  have hobs : (emptySystem.execAll sampleEnv (fenceKept sampleEnv) takenInFlight).map
      (fun s => (s.history, (s.db.outbox.map OutboxRec.ownershipScopeKey, s.db.outbox.map OutboxRec.ownershipGeneration))) =
        some ([.tookOver "c1/signal/peer" 2, .dispatch 0 1, .assigned "c1/signal/peer"],
          ([some "c1/signal/peer"], [some 1])) := by decide +kernel
  obtain ⟨s, hs, hobs⟩ := Option.map_eq_some_iff.1 hobs
  simp only [Prod.mk.injEq] at hobs
  obtain ⟨hhist, hscope, hgen⟩ := hobs
  obtain ⟨rec, hrec, hsc⟩ := List.map_eq_singleton_iff.1 hscope
  rw [hrec, List.map_singleton, List.cons.injEq] at hgen
  have hrun := run_of_execAll hs
  have hmem : rec ∈ s.db.outbox := by rw [hrec]; exact List.mem_singleton.2 rfl
  have htaken : TakenFrom s.history rec := ⟨[], _, _, 2, 1, hhist, hsc, hgen.1, by decide, by simp⟩
  exact ⟨s, rec, hrun, hmem, htaken, (takeover_fences emptySystem_start hrun).1 rec hmem htaken⟩

def lateFailure : List (Action String) :=
  takenInFlight ++ [.dispatchReturned 0 (.notAccepted "busy"), .settle 0]

def generationReset : List (Action String) :=
  [.takeover "c1" "signal" "peer", .takeover "c1" "signal" "peer", .handback "c1" "signal" "peer" 2,
   .assignAgent "c1" "signal" "peer" "watcher", .enqueueForAgent sampleRow "c1/signal/peer" "watcher" 1]

theorem taken_pending_of_run {as : List (Action String)} (new old : List (Entry String))
    (hhist : (emptySystem.execAll sampleEnv (fun _ _ => true) as).map System.history =
      some (new ++ .tookOver "c1/signal/peer" 2 :: old))
    (hrows : (emptySystem.execAll sampleEnv (fun _ _ => true) as).map (fun s => s.db.outbox.map (fun r =>
      ((r.id, r.status), (r.ownershipScopeKey, r.ownershipGeneration)))) =
        some [((1, .pending), (some "c1/signal/peer", some 1))])
    (hno : .released 1 ∉ new) : ∃ s rec, Run (System.Step sampleEnv) emptySystem as s ∧ rec ∈ s.db.outbox ∧
      TakenFrom s.history rec ∧ rec.status = .pending := by
  obtain ⟨s, hs, hnew⟩ := Option.map_eq_some_iff.1 hhist
  rw [hs, Option.map_some, Option.some.injEq] at hrows
  obtain ⟨rec, hrec, hcols⟩ := List.map_eq_singleton_iff.1 hrows
  simp only [Prod.mk.injEq] at hcols
  obtain ⟨⟨hid, hst⟩, hscope, hgen⟩ := hcols
  exact ⟨s, rec, run_mono (fun _ _ _ h => h.1) (run_of_execAll hs), by rw [hrec]; exact List.mem_singleton.2 rfl,
    ⟨new, old, _, 2, 1, hnew, hscope, hgen, by decide, by rw [hid]; exact hno⟩, hst⟩

/-- **A late failure, or a handback that drops the scope's row, puts an effect behind the takeover's back.** -/
theorem taken_effect_pending :
    (∃ s rec, Run (System.Step sampleEnv) emptySystem lateFailure s ∧ rec ∈ s.db.outbox ∧ TakenFrom s.history rec ∧
      rec.status = .pending) ∧
    ∃ s rec, Run (System.Step sampleEnv) emptySystem generationReset s ∧ rec ∈ s.db.outbox ∧
      TakenFrom s.history rec ∧ rec.status = .pending := by
  constructor
  · exact taken_pending_of_run [.notAccepted 0 1] [.dispatch 0 1, .assigned "c1/signal/peer"]
      (by decide +kernel) (by decide +kernel) (by decide)
  · exact taken_pending_of_run [.assigned "c1/signal/peer", .handedBack "c1/signal/peer" 2 none]
      [.tookOver "c1/signal/peer" 1] (by decide +kernel) (by decide +kernel) (by decide)

end Execlaw
