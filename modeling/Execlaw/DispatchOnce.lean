import Execlaw.RelayMoves
/-!
# DispatchOnce — how often a row reaches a sink without guarantees

A sink that neither deduplicates nor answers for earlier attempts may see a row again only after it refused the row, or
after an operator released it.  The relays keep to that as long as no relay acts on a row it has lost: a reclaim knows
that the row was in flight, a dispatch starts and a retry is scheduled under the relay's own claim.
-/
namespace Execlaw

open Steps

variable {J : Type} {env : Env J} {s s' : System J} {a : Action J} {i : Int}

/-! ## Dispatches in the history -/

def outstanding (i : Int) : List (Entry J) → List Nat
  | [] => []
  | .dispatch r j :: h => if j = i then r :: outstanding i h else outstanding i h
  | .notAccepted r j :: h => if j = i then (outstanding i h).filter (fun q => decide (q ≠ r)) else outstanding i h
  | .released j :: h => if j = i then [] else outstanding i h
  | .assigned _ :: h | .tookOver _ _ :: h | .acted _ _ _ _ _ :: h | .handedBack _ _ _ :: h => outstanding i h

/-- **Between two dispatches of the row, the earlier one was refused or an operator released the row.** -/
def AtMostOnce (i : Int) (h : List (Entry J)) : Prop :=
  ∀ newer between older r₁ r₂, h = newer ++ .dispatch r₂ i :: (between ++ .dispatch r₁ i :: older) →
    .notAccepted r₁ i ∈ between ∨ .released i ∈ between

variable {r : Nat}

theorem mem_outstanding {older : List (Entry J)} : ∀ {between : List (Entry J)},
    .notAccepted r i ∉ between → .released i ∉ between → r ∈ outstanding i (between ++ .dispatch r i :: older)
  | [], _, _ => by simp [outstanding]
  | e :: between, hn, hr => by
    rw [List.mem_cons, not_or] at hn hr
    have ih : r ∈ outstanding i (between ++ .dispatch r i :: older) := mem_outstanding hn.2 hr.2
    rw [List.cons_append]
    cases e with
    | dispatch q j =>
      simp only [outstanding]
      split
      · exact List.mem_cons_of_mem q ih
      · exact ih
    | notAccepted q j =>
      simp only [outstanding]
      split
      · rename_i hj
        subst hj
        have hq : r ≠ q := fun hq => hn.1 (by rw [hq])
        simp [ih, hq]
      · exact ih
    | released j =>
      simp only [outstanding]
      rw [if_neg (fun hj => hr.1 (by rw [hj]))]
      exact ih
    | assigned | tookOver | acted | handedBack => exact ih

theorem dispatch_mem_of_outstanding : ∀ {h : List (Entry J)}, r ∈ outstanding i h → .dispatch r i ∈ h
  | .dispatch q j :: h, hr => by
    simp only [outstanding] at hr
    split at hr
    · rename_i hj
      rcases List.mem_cons.1 hr with hrq | hr
      · rw [hrq, hj]
        exact List.mem_cons_self
      · exact List.mem_cons_of_mem _ (dispatch_mem_of_outstanding hr)
    · exact List.mem_cons_of_mem _ (dispatch_mem_of_outstanding hr)
  | .notAccepted q j :: h, hr => by
    simp only [outstanding] at hr
    split at hr
    · exact List.mem_cons_of_mem _ (dispatch_mem_of_outstanding (List.mem_of_mem_filter hr))
    · exact List.mem_cons_of_mem _ (dispatch_mem_of_outstanding hr)
  | .released j :: h, hr => by
    simp only [outstanding] at hr
    split at hr
    · cases hr
    · exact List.mem_cons_of_mem _ (dispatch_mem_of_outstanding hr)
  | .assigned _ :: h, hr | .tookOver _ _ :: h, hr | .acted _ _ _ _ _ :: h, hr | .handedBack _ _ _ :: h, hr =>
    List.mem_cons_of_mem _ (dispatch_mem_of_outstanding hr)

variable {h : List (Entry J)}

theorem atMostOnce_cons {e : Entry J} (he : ∀ r, e ≠ .dispatch r i) (hh : AtMostOnce i h) : AtMostOnce i (e :: h) := by
  intro newer between older r₁ r₂ heq
  cases newer with
  | nil =>
    rw [List.nil_append, List.cons.injEq] at heq
    exact absurd heq.1 (he r₂)
  | cons n newer =>
    rw [List.cons_append, List.cons.injEq] at heq
    exact hh newer between older r₁ r₂ heq.2

theorem atMostOnce_dispatch (hnone : outstanding i h = []) (hh : AtMostOnce i h) :
    AtMostOnce i (.dispatch r i :: h) := by
  intro newer between older r₁ r₂ heq
  cases newer with
  | nil =>
    rw [List.nil_append, List.cons.injEq] at heq
    by_contra hcon
    rw [not_or] at hcon
    have hmem : r₁ ∈ outstanding i (between ++ .dispatch r₁ i :: older) := mem_outstanding hcon.1 hcon.2
    rw [← heq.2, hnone] at hmem
    cases hmem
  | cons n newer =>
    rw [List.cons_append, List.cons.injEq] at heq
    exact hh newer between older r₁ r₂ heq.2

/-! ## The condition -/

/-- **No relay acts on row `i` after losing it.**  A claim that takes the row over from another relay was made knowing
that it was in flight; a dispatch starts while the claim is the row's last and the row is not pending again; a failure
that schedules a retry is recorded under the row's last claim. -/
def orderly (env : Env J) (i : Int) (s : System J) : Action J → Bool
  | .claimNext r =>
    match s.relays r, s.db.effect i with
    | .scanning nowTs (row :: _) _, some rec =>
      !(row.id == some i && rec.status == .inFlight && rec.claimable nowTs) || row.status == .inFlight
    | _, _ => true
  | .proceed r =>
    match s.relays r, s.db.effect i with
    | .working job .claimed, some rec =>
      !(job.id == i && ((env.relay r).registry job.row.effectKind).isSome && job.row.status != .inFlight) ||
        (s.claims i == some r && rec.status != .pending)
    | _, _ => true
  | .settle r =>
    match s.relays r, s.db.effect i with
    | .working job (.settling (.failure _) _), some rec =>
      !(job.id == i && rec.retrying (env.relay r).maxAttempts) || s.claims i == some r
    | .working job (.settling .noDispatcher _), some rec => !(job.id == i && rec.retrying 1)
    | _, _ => true
  | _ => true

def Relay.Armed (r : Nat) (i : Int) (out : List Nat) : Relay → Prop
  | .working job .claimed => job.id = i → job.row.status ≠ .inFlight → out = []
  | .working job .dispatching => job.id = i → ∀ q ∈ out, q = r
  | .working job (.settling (.failure _) _) => job.id = i → out = []
  | _ => True

theorem Relay.Armed.anti {out out' : List Nat} (hsub : out' ⊆ out) : ∀ {x : Relay},
    x.Armed r i out → x.Armed r i out'
  | .working _ .claimed, h => fun hid hst => List.subset_nil.1 (h hid hst ▸ hsub)
  | .working _ .dispatching, h => fun hid q hq => h hid q (hsub hq)
  | .working _ (.settling (.failure _) _), h => fun hid => List.subset_nil.1 (h hid ▸ hsub)
  | .working _ (.settling (.delivered _) _), _ => trivial
  | .working _ (.settling (.unknown _) _), _ => trivial
  | .working _ (.settling .noDispatcher _), _ => trivial
  | .working _ (.reconciling _), _ => trivial
  | .idle _, _ => trivial
  | .scanning _ _ _, _ => trivial

/-- **The invariant of one row**: a pending row has nothing outstanding, the last claimant knows what is, and the
history is good. -/
structure Once (i : Int) (s : System J) : Prop where
  pending : ∀ rec, s.db.effect i = some rec → rec.status = .pending → outstanding i s.history = []
  armed : ∀ r, s.claims i = some r → (s.relays r).Armed r i (outstanding i s.history)
  good : AtMostOnce i s.history

/-! ## Steps that are no relay's -/

theorem others_history (ha : a.relay? = none) (h : s.exec env a = some s') :
    ∃ new, s'.history = new ++ s.history ∧ (∀ e ∈ new, ∀ r j, e ≠ .dispatch r j ∧ e ≠ .notAccepted r j) := by
  have hnil : ∀ e ∈ ([] : List (Entry J)), ∀ r j, e ≠ .dispatch r j ∧ e ≠ .notAccepted r j := by simp
  have hcall : ∀ {α : Type} (note : α → List (Entry J)) (res : Except DbError α × Db),
      (∀ a, ∀ e ∈ note a, ∀ r j, e ≠ .dispatch r j ∧ e ≠ .notAccepted r j) →
      ∃ new, (s.call note res).history = new ++ s.history ∧
        (∀ e ∈ new, ∀ r j, e ≠ .dispatch r j ∧ e ≠ .notAccepted r j) := by
    intro α note res hnote
    rcases call_history s note res with heq | ⟨a, -, heq⟩
    · exact ⟨[], heq, hnil⟩
    · exact ⟨note a, heq, hnote a⟩
  cases a with
  | setClock now =>
    cases h
    exact ⟨[], rfl, hnil⟩
  | enqueue | enqueueIdempotent | enqueueForAgent | confirmUnknownDelivered =>
    cases h
    exact hcall _ _ (fun _ => hnil)
  | authorizeUnknownRetry | redriveDeadLetter | takeover | handback =>
    cases h
    exact hcall _ _ (by simp)
  | assignAgent =>
    cases h
    refine hcall _ _ (fun _ => ?_)
    split <;> simp
  | recordOperatorAction =>
    cases h
    refine hcall _ _ (fun inserted => ?_)
    cases inserted <;> simp
  | _ => cases ha

theorem outstanding_append_subset : ∀ {new : List (Entry J)},
    (∀ e ∈ new, ∀ r j, e ≠ .dispatch r j ∧ e ≠ .notAccepted r j) → outstanding i (new ++ h) ⊆ outstanding i h
  | [], _ => List.Subset.refl _
  | e :: new, hnew => by
    have ih : outstanding i (new ++ h) ⊆ outstanding i h :=
      outstanding_append_subset (fun e he => hnew e (List.mem_cons_of_mem _ he))
    have he := hnew e List.mem_cons_self
    rw [List.cons_append]
    cases e with
    | dispatch r j => exact absurd rfl (he r j).1
    | notAccepted r j => exact absurd rfl (he r j).2
    | released j =>
      simp only [outstanding]
      split
      · exact List.nil_subset _
      · exact ih
    | assigned | tookOver | acted | handedBack => exact ih

theorem atMostOnce_append : ∀ {new : List (Entry J)},
    (∀ e ∈ new, ∀ r j, e ≠ .dispatch r j ∧ e ≠ .notAccepted r j) → AtMostOnce i h → AtMostOnce i (new ++ h)
  | [], _, hh => hh
  | e :: _, hnew, hh =>
    atMostOnce_cons (fun r => (hnew e List.mem_cons_self r i).1)
      (atMostOnce_append (fun e he => hnew e (List.mem_cons_of_mem _ he)) hh)

theorem released_of_pending (hs : s.Coherent env) (ha : a.relay? = none) (h : s.exec env a = some s')
    {rec rec' : OutboxRec} (hrec : s.db.effect rec.id = some rec) (hrec' : s'.db.effect rec.id = some rec')
    (hst : rec'.status = .pending) : rec.status = .pending ∨ outstanding rec.id s'.history = [] := by
  obtain ⟨rec₁, heff, -, hcause⟩ := (exec_outbox hs h).effect hs hrec
  obtain rfl : rec' = rec₁ := Option.mem_unique hrec' heff
  rcases hcause with rfl | hcause | ⟨_, _, _, _, -, -, rfl, -⟩
  · exact .inl hst
  · rw [hst] at hcause
    rcases hcause.to_pending with ⟨r, _, _, _, _, rfl, -⟩ | hrel
    · cases ha
    · rcases releases_history hrel h with hdb | hhist
      · rw [hdb, hrec] at hrec'
        cases hrec'
        exact .inl hst
      · exact .inr (by rw [hhist]; simp [outstanding])
  · rcases status_withdraw rec with h | h <;> rw [h] at hst <;> cases hst

variable {rec : OutboxRec}

theorem Once.others (ho : Once i s) (hs : s.Coherent env) (ha : a.relay? = none) (h : s.exec env a = some s')
    (hrec : s.db.effect i = some rec) : Once i s' := by
  obtain ⟨new, hhist, hnew⟩ := others_history ha h
  obtain ⟨hrel, hcl⟩ := exec_others ha h
  have hsub : outstanding i s'.history ⊆ outstanding i s.history := by
    rw [hhist]
    exact outstanding_append_subset hnew
  obtain rfl : rec.id = i := id_of_effect hrec
  constructor
  · intro rec' hrec' hst
    rcases released_of_pending hs ha h hrec hrec' hst with hp | hnil
    · exact List.subset_nil.1 (ho.pending rec hrec hp ▸ hsub)
    · exact hnil
  · intro r hr
    rw [hrel]
    exact (ho.armed r (hcl ▸ hr)).anti hsub
  · rw [hhist]
    exact atMostOnce_append hnew ho.good

/-! ## Steps of a relay -/

theorem Once.relay_step (ho : Once i s) {q : Nat} {x : Relay} (hrel : s'.relays = Function.update s.relays q x)
    (hcl : ∀ r, r ≠ q → s'.claims i = some r → s.claims i = some r)
    (hsub : outstanding i s'.history ⊆ outstanding i s.history)
    (hx : s'.claims i = some q → x.Armed q i (outstanding i s'.history))
    (hpending : ∀ rec, s'.db.effect i = some rec → rec.status = .pending → outstanding i s'.history = [])
    (hgood : AtMostOnce i s'.history) : Once i s' := by
  refine ⟨hpending, ?_, hgood⟩
  intro r hr
  rw [hrel]
  by_cases hq : r = q
  · subst hq
    rw [Function.update_self]
    exact hx hr
  · rw [Function.update_of_ne hq]
    exact (ho.armed r (hcl r hq hr)).anti hsub

theorem Once.setRelay (ho : Once i s) {q : Nat} {x : Relay}
    (hx : s.claims i = some q → x.Armed q i (outstanding i s.history)) : Once i (s.setRelay q x) :=
  ho.relay_step rfl (fun _ _ h => h) (List.Subset.refl _) hx ho.pending ho.good

theorem Once.claimNext (ho : Once i s) {q : Nat} {nowTs : Int} {row : OutboxRow} {rest : List OutboxRow} {n : Nat}
    (hr : s.relays q = .scanning nowTs (row :: rest) n) (hord : orderly env i s (.claimNext q) = true) :
    Once i (s.claimNext env q nowTs row rest n) := by
  unfold System.claimNext
  cases hid : row.id with
  | none => exact ho.setRelay (fun _ => trivial)
  | some id =>
    rcases claimWithLease_cases id s!"relay:{(env.relay q).pid}:{nowTs}" nowTs 120 s.db with
      hres | ⟨rec, rec', db', hres, rfl, hw, hc, hst⟩
    · simp only [hres]
      exact ho.setRelay (fun _ => trivial)
    simp only [hres]
    refine ho.relay_step rfl ?_ (List.Subset.refl _) ?_ ?_ ho.good
    · intro r hq hcl
      by_cases hi : i = rec.id
      · subst hi
        simp only [Function.update_self] at hcl
        exact absurd (Option.some.inj hcl).symm hq
      · simpa only [Function.update_of_ne hi] using hcl
    · -- a row claimed while pending has nothing outstanding; a row taken over is known to be in flight
      intro _ hi hsnap
      subst hi
      rcases status_of_claimable hc with hp | hf
      · exact ho.pending rec hw.found hp
      · simp only [orderly, hr, hw.found, hid, hf, hc] at hord
        simp at hord
        exact absurd hord hsnap
    · intro rec₁ hrec₁ hp
      by_cases hi : i = rec.id
      · subst hi
        obtain rfl : rec' = rec₁ := Option.mem_unique hw.written hrec₁
        rw [hst] at hp
        cases hp
      · exact ho.pending rec₁ ((hw.others i hi).symm.trans hrec₁) hp

theorem Once.startDispatch (ho : Once i s) {q : Nat} {job : Job}
    (hi : job.id = i → s.claims i = some q ∧ outstanding i s.history = [] ∧
      ∀ rec, s.db.effect i = some rec → rec.status ≠ .pending) : Once i (s.startDispatch q job) := by
  by_cases hid : job.id = i
  · obtain ⟨hcl, hnone, hst⟩ := hi hid
    subst hid
    refine ⟨fun rec hrec hp => absurd hp (hst rec hrec), ?_, atMostOnce_dispatch hnone ho.good⟩
    intro r hr
    obtain rfl : q = r := Option.mem_unique hcl hr
    unfold System.startDispatch System.setRelay
    simp only [Function.update_self]
    intro _ p hp
    simp only [outstanding, if_true, hnone, List.mem_singleton] at hp
    exact hp
  · have hout : outstanding i (s.startDispatch q job).history = outstanding i s.history := by
      simp [System.startDispatch, outstanding, if_neg hid]
    refine ho.relay_step rfl (fun _ _ h => h) (by rw [hout]; exact List.Subset.refl _) ?_ ?_ ?_
    · intro _ hjob
      exact absurd hjob hid
    · rw [hout]
      exact ho.pending
    · refine atMostOnce_cons (fun r he => ?_) ho.good
      cases he
      exact hid rfl

/-- Every dispatcher of the kind declares `NoGuarantee`. -/
def NoGuarantee (env : Env J) (kind : String) : Prop :=
  ∀ r, (env.relay r).registry kind = none ∨ (env.relay r).registry kind = some .noGuarantee

theorem Once.proceed (ho : Once i s) (hs : s.Coherent env) {q : Nat} {job : Job}
    (hr : s.relays q = .working job .claimed) (hord : orderly env i s (.proceed q) = true)
    (hrec : s.db.effect i = some rec) (hkind : NoGuarantee env rec.effectKind) : Once i (s.proceed env q job) := by
  have hsame : job.id = i → job.row.effectKind = rec.effectKind := by
    rintro rfl
    obtain ⟨rec₁, -, heff, hk⟩ := hs.effect_job hr
    obtain rfl : rec = rec₁ := Option.mem_unique hrec heff
    exact hk.symm
  have hsend : job.row.status ≠ .inFlight → ((env.relay q).registry job.row.effectKind).isSome →
      Once i (s.startDispatch q job) := by
    intro hst hreg
    refine ho.startDispatch (fun hid => ?_)
    simp [orderly, hr, hrec, hid, hreg, hst] at hord
    have harmed := ho.armed q hord.1
    rw [hr] at harmed
    refine ⟨hord.1, harmed hid hst, fun rec₁ hrec₁ => ?_⟩
    obtain rfl : rec = rec₁ := Option.mem_unique hrec hrec₁
    exact hord.2
  unfold System.proceed
  cases hreg : (env.relay q).registry job.row.effectKind with
  | none => exact ho.setRelay (fun _ => trivial)
  | some safety =>
    simp only
    split
    · cases safety with
      | noGuarantee | statusLookup => exact ho.setRelay (fun _ => trivial)
      | idempotencyKey =>
        refine ho.startDispatch (fun hid => ?_)
        rw [hsame hid] at hreg
        rcases hkind q with h | h <;> rw [h] at hreg <;> cases hreg
    · rename_i hst
      exact hsend hst (by rw [hreg]; rfl)

theorem Once.dispatchReturned (ho : Once i s) (hs : s.Coherent env) {q : Nat} {job : Job}
    (hr : s.relays q = .working job .dispatching) (hrec : s.db.effect i = some rec)
    (hkind : NoGuarantee env rec.effectKind) (result : DispatchResult) :
    Once i (s.dispatchReturned env q job result) := by
  cases result with
  | ok receipt => exact ho.setRelay (fun _ => trivial)
  | notAccepted error =>
    simp only [System.dispatchReturned]
    refine ho.relay_step rfl (fun _ _ h => h) ?_ ?_ ?_ (atMostOnce_cons (fun _ h => by cases h) ho.good)
    · simp only [outstanding]
      split
      · exact List.filter_subset_self _
      · exact List.Subset.refl _
    · -- what was outstanding was this dispatch
      intro hcl hid
      have harmed := ho.armed q hcl
      rw [hr] at harmed
      simp only [outstanding, if_pos hid, List.filter_eq_nil_iff]
      intro p hp
      simp [harmed hid p hp]
    · intro rec₁ hrec₁ hp
      have hnone := ho.pending rec₁ hrec₁ hp
      simp only [outstanding]
      split <;> simp [hnone]
  | outcomeUnknown error =>
    simp only [System.dispatchReturned]
    split
    · rename_i hreg
      refine ho.setRelay (fun _ hid => ?_)
      obtain ⟨rec₁, -, heff, hk⟩ := hs.effect_job hr
      subst hid
      obtain rfl : rec = rec₁ := Option.mem_unique hrec heff
      rw [← hk] at hreg
      rcases hkind q with h | h <;> rw [h] at hreg <;> cases hreg
    · exact ho.setRelay (fun _ => trivial)
    · exact ho.setRelay (fun _ => trivial)

theorem Once.reconcileReturned (ho : Once i s) (hs : s.Coherent env) {q : Nat} {job : Job} {error : Option String}
    (hr : s.relays q = .working job (.reconciling error)) (hrec : s.db.effect i = some rec)
    (hkind : NoGuarantee env rec.effectKind) (result : Except String ReconciliationResult) :
    Once i (s.reconcileReturned q job error result) := by
  have hne : job.id ≠ i := by
    rintro rfl
    obtain ⟨rec₁, -, heff, hk⟩ := hs.effect_job hr
    obtain rfl : rec = rec₁ := Option.mem_unique hrec heff
    have hask := hs.lookup q job error hr
    rw [← hk] at hask
    rcases hkind q with h | h <;> rw [h] at hask <;> cases hask
  unfold System.reconcileReturned
  split
  case h_2 => exact ho.startDispatch (fun hid => absurd hid hne)
  all_goals exact ho.setRelay (fun _ => by first | trivial | exact fun hid => absurd hid hne)

theorem settle_disarms (env : Env J) (s : System J) (q : Nat) (job : Job) (context : String) (outcome : Outcome) :
    ∃ x, (s.settle env q job context outcome).relays = Function.update s.relays q x ∧
      ∀ (i : Int) (out : List Nat), x.Armed q i out := by
  have hsettled : ∀ {α : Type} (counted : Nat) (res : Except DbError α × Db),
      ∃ x, (s.settled q job context counted res).relays = Function.update s.relays q x ∧
        ∀ (i : Int) (out : List Nat), x.Armed q i out := by
    intro α counted res
    obtain ⟨x, db⟩ := res
    cases x <;> exact ⟨_, rfl, fun _ _ => trivial⟩
  cases outcome with
  | delivered receipt | failure error | unknown reason => exact hsettled 1 _
  | noDispatcher => exact ⟨_, rfl, fun _ _ => trivial⟩

theorem Once.settle (ho : Once i s) (hs : s.Coherent env) {q : Nat} {job : Job} {outcome : Outcome} {context : String}
    (hr : s.relays q = .working job (.settling outcome context)) (hord : orderly env i s (.settle q) = true)
    (hrec : s.db.effect i = some rec) : Once i (s.settle env q job context outcome) := by
  obtain ⟨hhist, hcl⟩ := settle_history env s q job context outcome
  obtain ⟨x, hrel, hx⟩ := settle_disarms env s q job context outcome
  refine ho.relay_step hrel (fun _ _ h => hcl ▸ h) (by rw [hhist]; exact List.Subset.refl _) (fun _ => hx i _) ?_
    (by rw [hhist]; exact ho.good)
  rw [hhist]
  intro rec₁ hrec₁ hp
  obtain rfl : rec.id = i := id_of_effect hrec
  obtain ⟨rec₂, heff, -, hcause⟩ := (settle_outbox hs hr).effect hs hrec
  obtain rfl : rec₁ = rec₂ := Option.mem_unique hrec₁ heff
  rcases hcause with rfl | hcause | ⟨_, _, _, _, hact, -⟩
  · exact ho.pending rec₁ hrec hp
  · rw [hp] at hcause
    rcases hcause.to_pending with ⟨r, job', outcome', context', budget, hact, hr', hid, hretry, hout⟩ | hrel
    · -- the retry was recorded under the row's last claim, after the sink refused
      cases hact
      obtain ⟨rfl, hset⟩ : job = job' ∧ Phase.settling outcome context = .settling outcome' context' := by
        rw [hr] at hr'
        cases hr'
        exact ⟨rfl, rfl⟩
      cases hset
      rcases hout with ⟨error, rfl, rfl⟩ | ⟨rfl, rfl⟩
      · simp [orderly, hr, hrec, hid, hretry] at hord
        have harmed := ho.armed q hord
        rw [hr] at harmed
        exact harmed hid
      · simp [orderly, hr, hrec, hid, hretry] at hord
    · rcases hrel with ⟨_, _, hact⟩ | ⟨_, _, hact⟩ <;> cases hact
  · cases hact

theorem Once.step (ho : Once i s) (hs : s.Coherent env) (h : s.exec env a = some s') (hord : orderly env i s a = true)
    (hrec : s.db.effect i = some rec) (hkind : NoGuarantee env rec.effectKind) : Once i s' := by
  cases ha : a.relay? with
  | none => exact ho.others hs ha h hrec
  | some q =>
    cases exec_relay ha h with
    | claimNext hr => exact ho.claimNext hr hord
    | proceed hr => exact ho.proceed hs hr hord hrec hkind
    | dispatchReturned hr result => exact ho.dispatchReturned hs hr hrec hkind result
    | reconcileReturned hr result => exact ho.reconcileReturned hs hr hrec hkind result
    | settle hr => exact ho.settle hs hr hord hrec
    | beginDrain | finishDrain | crash => exact ho.setRelay (fun _ => trivial)

def Known (s : System J) : Prop := ∀ r j, .dispatch r j ∈ s.history → ∃ rec, rec.id = j ∧ s.db.effect j = some rec

theorem RelayStep.dispatches {q r : Nat} {j : Int} (h : RelayStep env s q a s') (hmem : .dispatch r j ∈ s'.history) :
    .dispatch r j ∈ s.history ∨ ∃ job phase, s.relays q = .working job phase ∧ job.id = j := by
  rcases h.history with heq | ⟨job, phase, hr, heq | heq⟩
  · exact .inl (heq ▸ hmem)
  · rw [heq] at hmem
    rcases List.mem_cons.1 hmem with he | hmem
    · cases he
      exact .inr ⟨job, phase, hr, rfl⟩
    · exact .inl hmem
  · rw [heq] at hmem
    rcases List.mem_cons.1 hmem with he | hmem
    · cases he
    · exact .inl hmem

theorem Known.row (hk : Known s) (hs : s.Coherent env) (h : s.exec env a = some s') {j : Int}
    (hmem : .dispatch r j ∈ s'.history) : ∃ rec, rec.id = j ∧ s.db.effect j = some rec := by
  cases ha : a.relay? with
  | none =>
    obtain ⟨new, hhist, hnew⟩ := others_history ha h
    rw [hhist] at hmem
    rcases List.mem_append.1 hmem with hmem | hmem
    · exact absurd rfl (hnew _ hmem r j).1
    · exact hk r j hmem
  | some q =>
    rcases (exec_relay ha h).dispatches hmem with hmem | ⟨job, phase, hr, rfl⟩
    · exact hk r j hmem
    · obtain ⟨rec, hid, heff, -⟩ := hs.effect_job hr
      exact ⟨rec, hid, heff⟩

theorem Known.step (hk : Known s) (hs : s.Coherent env) (h : s.exec env a = some s') : Known s' := by
  intro r j hmem
  obtain ⟨rec, rfl, heff⟩ := hk.row hs h hmem
  obtain ⟨rec', heff', hsame, -⟩ := (exec_outbox hs h).effect hs heff
  exact ⟨rec', hsame.id, heff'⟩

theorem once_of_empty (hnone : outstanding i s.history = []) (hgood : AtMostOnce i s.history) : Once i s where
  pending := fun _ _ _ => hnone
  armed := fun r _ => by
    rw [hnone]
    cases s.relays r with
    | idle | scanning => trivial
    | working job phase =>
      cases phase with
      | claimed => exact fun _ _ => rfl
      | dispatching => exact fun _ _ hq => by cases hq
      | reconciling => trivial
      | settling outcome _ =>
        cases outcome with
        | failure => exact fun _ => rfl
        | delivered | unknown | noDispatcher => trivial
  good := hgood

theorem atMostOnce_of_none (hnone : ∀ r, .dispatch r i ∉ h) : AtMostOnce i h := by
  intro newer between older r₁ r₂ heq
  exact absurd (by rw [heq]; simp) (hnone r₂)

structure OnceRun (env : Env J) (i : Int) (s : System J) : Prop where
  coherent : s.Coherent env
  known : Known s
  once : ∀ rec, s.db.effect i = some rec → NoGuarantee env rec.effectKind → Once i s

theorem OnceRun.step (ho : OnceRun env i s) (h : s.exec env a = some s') (hord : orderly env i s a = true) :
    OnceRun env i s' where
  coherent := exec_coherent ho.coherent h
  known := ho.known.step ho.coherent h
  once := by
    intro rec' hrec' hkind
    have hs := ho.coherent
    cases hrec : s.db.effect i with
    | some rec =>
      obtain rfl : rec.id = i := id_of_effect hrec
      obtain ⟨rec₁, heff, hsame, -⟩ := (exec_outbox hs h).effect hs hrec
      obtain rfl : rec' = rec₁ := Option.mem_unique hrec' heff
      rw [hsame.kind] at hkind
      exact (ho.once rec hrec hkind).step hs h hord hrec hkind
    | none =>
      -- a row just stored was never dispatched
      have hnone : ∀ r, .dispatch r i ∉ s'.history := by
        intro r hmem
        obtain ⟨rec, -, heff⟩ := ho.known.row hs h hmem
        rw [hrec] at heff
        cases heff
      refine once_of_empty ?_ (atMostOnce_of_none hnone)
      exact List.eq_nil_iff_forall_not_mem.2 fun r hr => hnone r (dispatch_mem_of_outstanding hr)

/-- **At-most-once dispatch.**  In every run whose steps on row `i` are orderly, a row whose sink gives no guarantee is
dispatched again only after the sink refused it or an operator released it. -/
theorem dispatched_at_most_once {s₀ : System J} {as : List (Action J)} (hstart : s₀.Start)
    (hrun : Run (fun s a s' => s.Step env a s' ∧ orderly env i s a = true) s₀ as s) {rec : OutboxRec}
    (hrec : s.db.effect i = some rec) (hkind : NoGuarantee env rec.effectKind) : AtMostOnce i s.history := by
  have hinv : OnceRun env i s := by
    refine run_invariant hrun ?_ (fun _ _ _ ho h => ho.step h.1 h.2)
    refine ⟨start_coherent hstart, ?_, ?_⟩
    · intro r j hmem
      rw [hstart.history] at hmem
      cases hmem
    · intro rec hrec
      unfold Db.effect at hrec
      rw [hstart.outbox] at hrec
      cases hrec
  exact (hinv.once rec hrec hkind).good

def refusedThenSent : List (Action String) :=
  [.enqueue sampleRow, .beginDrain 0, .claimNext 0, .proceed 0, .dispatchReturned 0 (.notAccepted "busy"), .settle 0,
   .setClock 10, .beginDrain 1, .claimNext 1, .proceed 1]

theorem dispatched_at_most_once_refused :
    ∃ s, Run (fun s a s' => s.Step sampleEnv a s' ∧ orderly sampleEnv 1 s a = true) emptySystem refusedThenSent s ∧
      s.history = [.dispatch 1 1, .notAccepted 0 1, .dispatch 0 1] ∧ AtMostOnce 1 s.history := by
  have hsome : (emptySystem.execAll sampleEnv (orderly sampleEnv 1) refusedThenSent).isSome = true := by decide +kernel
  obtain ⟨s, hs⟩ := Option.isSome_iff_exists.1 hsome
  have hobs : (emptySystem.execAll sampleEnv (orderly sampleEnv 1) refusedThenSent).map
      (fun s => (s.history, (s.db.effect 1).map OutboxRec.effectKind)) =
        some ([.dispatch 1 1, .notAccepted 0 1, .dispatch 0 1], some "transport.send") := by decide +kernel
  rw [hs, Option.map_some, Option.some.injEq, Prod.mk.injEq] at hobs
  obtain ⟨rec, hrec, hkind⟩ := Option.map_eq_some_iff.1 hobs.2
  refine ⟨s, run_of_execAll hs, hobs.1, ?_⟩
  refine dispatched_at_most_once emptySystem_start (run_of_execAll hs) hrec (fun r => .inr ?_)
  rw [hkind]
  rfl

/-- Relay 1 reads the pending row and is slow; 200 seconds later relay 0 reads it too.  Relay 1 claims it for a lease
that, by the clock it read, is already over, and sends it; relay 0 reclaims the row it believes pending. -/
def staleClock : List (Action String) :=
  [.enqueue sampleRow, .beginDrain 1, .setClock 200, .beginDrain 0, .claimNext 1, .proceed 1, .claimNext 0, .proceed 0]

/-- **Two relays dispatch one row**, the first dispatch still running. -/
theorem dispatched_twice : ∃ s, Run (System.Step sampleEnv) emptySystem staleClock s ∧
    (∃ rec, s.db.effect 1 = some rec ∧ NoGuarantee sampleEnv rec.effectKind) ∧
    s.history = [.dispatch 0 1, .dispatch 1 1] ∧ ¬ AtMostOnce 1 s.history := by
  have hsome : (emptySystem.execAll sampleEnv (fun _ _ => true) staleClock).isSome = true := by decide +kernel
  obtain ⟨s, hs⟩ := Option.isSome_iff_exists.1 hsome
  have hobs : (emptySystem.execAll sampleEnv (fun _ _ => true) staleClock).map
      (fun s => (s.history, (s.db.effect 1).map OutboxRec.effectKind)) =
        some ([.dispatch 0 1, .dispatch 1 1], some "transport.send") := by decide +kernel
  rw [hs, Option.map_some, Option.some.injEq, Prod.mk.injEq] at hobs
  obtain ⟨rec, hrec, hkind⟩ := Option.map_eq_some_iff.1 hobs.2
  refine ⟨s, run_mono (fun _ _ _ h => h.1) (run_of_execAll hs), ⟨rec, hrec, fun r => .inr ?_⟩, hobs.1, ?_⟩
  · rw [hkind]
    rfl
  · rw [hobs.1]
    intro hgood
    rcases hgood [] [] [] 1 0 rfl with h | h <;> cases h

end Execlaw
