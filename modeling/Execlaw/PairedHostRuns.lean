import Execlaw.PairedHosts
/-!
# PairedHostRuns — delegated tasks in every interleaving of the store calls

Each call is split into its statements.  What a task was created with stays, and was within the peer's ceilings at a
moment of the creating call; nothing a peer signed is stored by a call that never met the peer active.  A finished task
stays finished as long as the write of each `transition_task`, which does not check the status again, still finds its
task active.
-/
namespace Execlaw

open Table Interleave Steps

namespace PairedHostStore

variable {V SK PK : Type} (lib : HostLib V SK PK)

/-! ## What the statements of a call do -/

def Allowed (t : PairedHosts) (peerId : String) (authority dataLabels : List String) : Prop :=
  ∃ host, t.peers.row peerId = some host ∧ host.active = true ∧ authority ⊆ host.allowedCapabilities ∧
    dataLabels ⊆ host.allowedDataLabels

def Signed (t : PairedHosts) (peerId : String) (payload : List UInt8) (signatureHex : String) : Prop :=
  ∃ host, t.peers.row peerId = some host ∧ host.active = true ∧
    verifySignature lib host.publicKeyHex payload signatureHex = .ok ()

def signature : Call V SK → Option (String × List UInt8 × String)
  | .receiveSignedTask peerId payload signatureHex _ => some (peerId, payload, signatureHex)
  | .recordSignedResult peerId payload signatureHex _ => some (peerId, payload, signatureHex)
  | _ => none

def Verified (c : Call V SK) (met : List PairedHosts) : Prop :=
  ∀ peerId payload signatureHex, signature c = some (peerId, payload, signatureHex) →
    ∃ s ∈ met, Signed lib s peerId payload signatureHex

/-- **What one statement of a call does**, with the states its earlier statements met. -/
inductive HostMove (c : Call V SK) (met : List PairedHosts) (t : PairedHosts) : PairedHosts → Prop
  | still : HostMove c met t t
  | paired {t' : PairedHosts} (request : PairOperatorHostRequest) (call : c = .pair request)
      (tasks : t'.tasks = t.tasks) (others : ∀ j, j ≠ request.peerId → t'.peers.row j = t.peers.row j) :
      HostMove c met t t'
  | revoked {t' : PairedHosts} (tasks : t'.tasks = t.tasks)
      (fewer : ∀ j r', t'.peers.row j = some r' → r'.active = true → t.peers.row j = some r') : HostMove c met t t'
  | created {t' : PairedHosts} (row : DelegatedTaskRow) (peers : t'.peers = t.peers)
      (allowed : ∃ s ∈ met, Allowed s row.peerId row.authority row.dataLabels) (verified : Verified lib c met)
      (pending : row.status = .pending) (empty : row.artifacts = []) (fresh : t.tasks.row row.taskId = none)
      (tasks : ∀ j, t'.tasks.row j = (t.tasks.row j).or (if row.taskId = j then some row else none)) :
      HostMove c met t t'
  | moved (taskId : String) (next : DelegatedHostTaskStatus) (now : Int)
      (call : c = .transitionTask taskId next now) (second : met ≠ []) :
      HostMove c met t { t with tasks := t.tasks.update taskId (statusChange next now) }
  | finished (taskId peerId : String) (next : DelegatedHostTaskStatus) (artifacts : List DelegatedHostArtifact)
      (now : Int) (verified : Verified lib c met) (ends : next = .completed ∨ next = .failed)
      (labelled : ∃ s ∈ met, ∃ r, s.tasks.row taskId = some r ∧ ∀ a ∈ artifacts, a.dataLabels ⊆ r.dataLabels) :
      HostMove c met t { t with tasks := t.tasks.update taskId (resultChange peerId next artifacts now) }

theorem reject_ok {condition : Prop} [Decidable condition] {error : PairedHostError} {u : Unit}
    (h : reject condition error = .ok u) : ¬ condition := by
  unfold reject at h
  split at h
  · cases h
  · next hnot => exact hnot

theorem bind_ok {ε α β : Type} {x : Except ε α} {f : α → Except ε β} {b : β} (h : x >>= f = .ok b) :
    ∃ a, x = .ok a ∧ f a = .ok b := by
  cases x with
  | error e => cases h
  | ok a => exact ⟨a, rfl, h⟩

variable {policy : String × List String × List String} {peerId : String}

theorem activePeerPolicy_ok {t : PairedHosts} (h : activePeerPolicy peerId t = .ok policy) :
    ∃ host, t.peers.row peerId = some host ∧ host.active = true ∧
      policy = (host.publicKeyHex, host.allowedCapabilities, host.allowedDataLabels) := by
  unfold activePeerPolicy at h
  split at h
  · cases h
  · next host hhost =>
    obtain ⟨hrow, hactive⟩ := Option.filter_eq_some_iff.1 hhost
    exact ⟨host, hrow, hactive, (Except.ok.inj h).symm⟩

theorem filter_contains_subset (values ceiling : List String) :
    values.filter (fun v => ceiling.contains v) ⊆ ceiling := by
  intro v hv
  simpa using (List.mem_filter.1 hv).2

variable {request : PairOperatorHostRequest}

theorem pairRow_ok {row : PairedHostRow} (h : pairRow lib request = .ok row) : row.peerId = request.peerId := by
  unfold pairRow at h
  repeat
    obtain ⟨_, -, h'⟩ := bind_ok h
    clear h
    rename' h' => h
  cases h
  rfl

theorem pairTx_move {row : PairedHostRow} (hrow : row.peerId = request.peerId) (met : List PairedHosts)
    (t : PairedHosts) : HostMove lib (.pair request : Call V SK) met t (Calls.transact (pairTx row) t).2 := by
  rcases Calls.transact_cases (pairTx row) t with ⟨e, -, h⟩ | ⟨u, t', hok, h⟩ <;> rw [h]
  · exact .still
  unfold pairTx at hok
  split at hok
  · cases hok
  split at hok
  · cases (Prod.ext_iff.1 (Except.ok.inj hok)).2
    refine .paired request rfl rfl fun j hj => ?_
    exact Keyed.row_upsert_of_ne _ _ _ (by rwa [hrow])
  · cases hok

theorem revoke_move (c : Call V SK) (met : List PairedHosts) (t : PairedHosts) (peerId : String) (now : Int) :
    HostMove lib c met t { t with peers := t.peers.update peerId (revokeChange now) } := by
  refine .revoked rfl fun j r' hr' hactive => ?_
  cases hr : t.peers.row j with
  | none => rw [Keyed.row_update_eq_none hr] at hr'; cases hr'
  | some r =>
    rcases Keyed.row_update_cases (k := peerId) (c := revokeChange now) hr with h | ⟨-, -, h⟩ <;> rw [h] at hr'
    · exact hr'
    · cases hr'
      cases hactive

variable {row : DelegatedTaskRow} {c : Call V SK} {met : List PairedHosts}

theorem insertTask_move (t : PairedHosts) (hallowed : ∃ s ∈ met, Allowed s row.peerId row.authority row.dataLabels)
    (hverified : Verified lib c met) (hpending : row.status = .pending) (hempty : row.artifacts = []) :
    HostMove lib c met t (Calls.transact (insertTask row) t).2 := by
  rcases Calls.transact_cases (insertTask row) t with ⟨e, -, h⟩ | ⟨u, t', hok, h⟩ <;> rw [h]
  · exact .still
  unfold insertTask at hok
  split at hok
  · cases hok
  split at hok
  · cases hok
  next tasks hins =>
  cases (Prod.ext_iff.1 (Except.ok.inj hok)).2
  obtain ⟨hfresh, hrows⟩ := Keyed.insert?_eq_some hins
  exact .created row rfl hallowed hverified hpending hempty hfresh hrows

theorem issueTx_snd (row : DelegatedTaskRow) (t : PairedHosts) :
    (Calls.transact (issueTx row) t).2 = t ∨
      (Calls.transact (issueTx row) t).2 = (Calls.transact (insertTask row) t).2 := by
  rcases Calls.transact_cases (issueTx row) t with ⟨e, -, h⟩ | ⟨u, t', hok, h⟩ <;> rw [h]
  · exact .inl rfl
  unfold issueTx at hok
  split at hok
  · rw [Calls.transact_of_ok hok]
    exact .inr rfl
  · split at hok
    · cases hok
    · exact .inl (Prod.ext_iff.1 (Except.ok.inj hok)).2.symm

variable {payload : List UInt8}

theorem outbound_ok {request : IssueDelegatedHostTask V SK} {taskJson : String} {caps labels : List String}
    (h : outbound lib request taskJson caps labels = .ok (row, payload)) :
    row.peerId = request.peerId ∧ row.authority ⊆ caps ∧ row.dataLabels ⊆ labels ∧ row.status = .pending ∧
      row.artifacts = [] := by
  unfold outbound at h
  obtain ⟨requestedCaps, -, h⟩ := bind_ok h
  obtain ⟨requestedLabels, -, h⟩ := bind_ok h
  dsimp only at h
  split at h
  · cases h
  · cases h
    exact ⟨rfl, filter_contains_subset _ _, filter_contains_subset _ _, rfl, rfl⟩

variable {signatureHex : String}

theorem inbound_ok {now : Int} {v : V} (h : inbound lib peerId payload signatureHex now policy = .ok (row, v)) :
    verifySignature lib policy.1 payload signatureHex = .ok () ∧ row.peerId = peerId ∧ row.authority ⊆ policy.2.1 ∧
      row.dataLabels ⊆ policy.2.2 ∧ row.status = .pending ∧ row.artifacts = [] := by
  unfold inbound at h
  obtain ⟨u, hverify, h⟩ := bind_ok h
  split at h
  · cases h
  obtain ⟨_, -, h⟩ := bind_ok h
  obtain ⟨_, -, h⟩ := bind_ok h
  obtain ⟨requestedCaps, -, h⟩ := bind_ok h
  obtain ⟨requestedLabels, -, h⟩ := bind_ok h
  split at h
  · cases h
  · cases h
    exact ⟨hverify, rfl, filter_contains_subset _ _, filter_contains_subset _ _, rfl, rfl⟩

variable {result : SignedTaskResult}

theorem signedResult_ok (h : signedResult lib payload signatureHex policy = .ok result) :
    verifySignature lib policy.1 payload signatureHex = .ok () :=
  (bind_ok h).choose_spec.1

theorem validateArtifacts_ok {labels : List String} : ∀ {artifacts : List DelegatedHostArtifact},
    validateArtifacts labels artifacts = .ok () → ∀ a ∈ artifacts, a.dataLabels ⊆ labels
  | [], _ => nofun
  | artifact :: artifacts, h => by
    unfold validateArtifacts at h
    split at h
    · cases h
    next hfirst =>
    have ih : ∀ a ∈ artifacts, a.dataLabels ⊆ labels := validateArtifacts_ok h
    have hlabels : artifact.dataLabels ⊆ labels := by
      unfold validateArtifact at hfirst
      split at hfirst
      · cases hfirst
      split at hfirst
      · cases hfirst
      next hchecks =>
      intro l hl
      by_contra hmem
      simp only [Bool.or_eq_true, List.any_eq_true, not_or, not_exists, not_and] at hchecks
      exact hchecks.2 l hl (by simpa using hmem)
    exact List.forall_mem_cons.2 ⟨hlabels, ih⟩

variable {next : DelegatedHostTaskStatus} {current : DelegatedHostTask V}

theorem resultStatus_ok (h : resultStatus peerId result current = .ok next) :
    (next = .completed ∨ next = .failed) ∧ ∀ a ∈ result.artifacts, a.dataLabels ⊆ current.effectiveDataLabels := by
  unfold resultStatus at h
  obtain ⟨_, -, h⟩ := bind_ok h
  obtain ⟨status, houtcome, h⟩ := bind_ok h
  obtain ⟨_, hartifacts, h⟩ := bind_ok h
  cases h
  refine ⟨?_, validateArtifacts_ok hartifacts⟩
  unfold outcomeStatus at houtcome
  split at houtcome
  · exact .inl (Except.ok.inj houtcome).symm
  split at houtcome
  · exact .inr (Except.ok.inj houtcome).symm
  · cases houtcome

theorem task_ok {taskId : String} {t : PairedHosts} (h : task lib taskId t = .ok (some current)) :
    ∃ r, t.tasks.row taskId = some r ∧ current.status = r.status ∧ current.effectiveDataLabels = r.dataLabels := by
  unfold task at h
  split at h
  · cases h
  next r hr =>
  split at h
  · cases h
  cases h
  exact ⟨r, hr, rfl, rfl⟩

theorem resultTx_move {taskId peerId : String} {artifacts : List DelegatedHostArtifact} {now : Int} (t : PairedHosts)
    (hverified : Verified lib c met) (hends : next = .completed ∨ next = .failed)
    (hlabelled : ∃ s ∈ met, ∃ r, s.tasks.row taskId = some r ∧ ∀ a ∈ artifacts, a.dataLabels ⊆ r.dataLabels) :
    HostMove lib c met t (Calls.transact (resultTx taskId peerId next artifacts now) t).2 := by
  rcases Calls.transact_cases (resultTx taskId peerId next artifacts now) t with ⟨e, -, h⟩ | ⟨u, t', hok, h⟩ <;> rw [h]
  · exact .still
  unfold resultTx at hok
  split at hok
  · cases (Prod.ext_iff.1 (Except.ok.inj hok)).2
    exact .finished taskId peerId next artifacts now hverified hends hlabelled
  · cases hok

/-! ### The programs -/

abbrev Tells (c : Call V SK) {α : Type} (met : List PairedHosts) (p : Prog PairedHosts α) : Prop :=
  p.Tells (HostMove lib c) (fun _ _ => True) met

theorem tells_answer {α : Type} {f : α → Reply V} {p : Prog PairedHosts (Except PairedHostError α)}
    (h : Tells lib c [] p) : Tells lib c [] (answer f p) :=
  Prog.Tells.bind (P := HostMove lib c) (Q := fun _ _ => True) (k := fun res => pure (res.map f))
    (fun _ _ _ => Prog.tells_pure trivial) h

theorem tells_pair (request : PairOperatorHostRequest) :
    Tells lib (.pair request : Call V SK) [] (pair lib request) := by
  unfold pair
  split
  · exact Prog.tells_pure trivial
  · next row hrow =>
    refine Prog.tells_atomic (fun t => pairTx_move lib (pairRow_ok lib hrow) _ t) fun t => ?_
    split <;> exact Prog.tells_pure trivial

theorem tells_revokePeer (peerId actorTrust : String) (now : Int) :
    Tells lib (.revokePeer peerId actorTrust now : Call V SK) [] (revokePeer peerId actorTrust now) := by
  unfold revokePeer
  split
  · exact Prog.tells_pure trivial
  · exact Prog.tells_atomic (fun t => revoke_move lib _ _ t peerId now) fun _ => Prog.tells_pure trivial

theorem tells_issueSignedTask (request : IssueDelegatedHostTask V SK) :
    Tells lib (.issueSignedTask request) [] (issueSignedTask lib request) := by
  unfold issueSignedTask
  split
  · exact Prog.tells_pure trivial
  refine Prog.tells_read (fun _ => .still) fun s => ?_
  split
  · exact Prog.tells_pure trivial
  next caps labels hpolicy =>
  obtain ⟨host, hhost, hactive, hceilings⟩ := activePeerPolicy_ok hpolicy
  obtain ⟨-, rfl, rfl⟩ := Prod.mk.injEq .. ▸ hceilings
  split
  · exact Prog.tells_pure trivial
  next row payload hout =>
  obtain ⟨hpeer, hcaps, hlabels, hpending, hempty⟩ := outbound_ok lib hout
  refine Prog.tells_atomic (fun t => ?_) fun t => ?_
  · rcases issueTx_snd row t with h | h <;> rw [h]
    · exact .still
    · refine insertTask_move lib t ⟨s, by simp, host, ?_, hactive, hcaps, hlabels⟩ ?_ hpending hempty
      · rwa [hpeer]
      · intro _ _ _ hnone
        cases hnone
  · split
    · exact Prog.tells_pure trivial
    · exact Prog.tells_read (fun _ => .still) fun _ => Prog.tells_pure trivial

theorem tells_receiveSignedTask (peerId : String) (payload : List UInt8) (signatureHex : String) (now : Int) :
    Tells lib (.receiveSignedTask peerId payload signatureHex now : Call V SK) []
      (receiveSignedTask lib peerId payload signatureHex now) := by
  unfold receiveSignedTask
  split
  · exact Prog.tells_pure trivial
  refine Prog.tells_read (fun _ => .still) fun s => ?_
  split
  · exact Prog.tells_pure trivial
  next policy hpolicy =>
  obtain ⟨host, hhost, hactive, rfl⟩ := activePeerPolicy_ok hpolicy
  split
  · exact Prog.tells_pure trivial
  next row v hin =>
  obtain ⟨hverify, hpeer, hcaps, hlabels, hpending, hempty⟩ := inbound_ok lib hin
  refine Prog.tells_atomic (fun t => ?_) fun t => by split <;> exact Prog.tells_pure trivial
  refine insertTask_move lib t ⟨s, by simp, host, ?_, hactive, hcaps, hlabels⟩ ?_ hpending hempty
  · rwa [hpeer]
  · intro _ _ _ hsigned
    obtain ⟨rfl, rfl, rfl⟩ := by simpa [signature] using hsigned
    exact ⟨s, by simp, host, hhost, hactive, hverify⟩

theorem tells_transitionTask (taskId : String) (next : DelegatedHostTaskStatus) (now : Int) :
    Tells lib (.transitionTask taskId next now : Call V SK) [] (transitionTask lib taskId next now) := by
  unfold transitionTask
  refine Prog.tells_read (fun _ => .still) fun s => ?_
  split
  · exact Prog.tells_pure trivial
  · exact Prog.tells_pure trivial
  split
  · exact Prog.tells_pure trivial
  · exact Prog.tells_atomic (fun t => .moved taskId next now rfl (by simp)) fun _ => Prog.tells_pure trivial

theorem tells_recordSignedResult (peerId : String) (payload : List UInt8) (signatureHex : String) (now : Int) :
    Tells lib (.recordSignedResult peerId payload signatureHex now : Call V SK) []
      (recordSignedResult lib peerId payload signatureHex now) := by
  unfold recordSignedResult
  split
  · exact Prog.tells_pure trivial
  refine Prog.tells_read (fun _ => .still) fun s => ?_
  split
  · exact Prog.tells_pure trivial
  next policy hpolicy =>
  obtain ⟨host, hhost, hactive, rfl⟩ := activePeerPolicy_ok hpolicy
  split
  · exact Prog.tells_pure trivial
  next result hresult =>
  have hverify := signedResult_ok lib hresult
  refine Prog.tells_read (fun _ => .still) fun s' => ?_
  split
  · exact Prog.tells_pure trivial
  · exact Prog.tells_pure trivial
  next current hcurrent =>
  obtain ⟨r, hr, -, hlabels⟩ := task_ok lib hcurrent
  split
  · exact Prog.tells_pure trivial
  next next hnext =>
  obtain ⟨hends, hartifacts⟩ := resultStatus_ok hnext
  rw [hlabels] at hartifacts
  refine Prog.tells_atomic (fun t => ?_) fun t => ?_
  · refine resultTx_move lib t ?_ hends ⟨s', by simp, r, hr, hartifacts⟩
    intro _ _ _ hsigned
    obtain ⟨rfl, rfl, rfl⟩ := by simpa [signature] using hsigned
    exact ⟨s, by simp, host, hhost, hactive, hverify⟩
  · split
    · exact Prog.tells_pure trivial
    refine Prog.tells_read (fun _ => .still) fun _ => ?_
    split <;> exact Prog.tells_pure trivial

theorem tells_run (c : Call V SK) : Tells lib c [] (run lib c) := by
  cases c with
  | pair request =>
    rw [run]
    apply tells_answer
    exact tells_pair lib request
  | revokePeer peerId actorTrust now =>
    rw [run]
    apply tells_answer
    exact tells_revokePeer lib peerId actorTrust now
  | issueSignedTask request =>
    rw [run]
    apply tells_answer
    exact tells_issueSignedTask lib request
  | receiveSignedTask peerId payload signatureHex now =>
    rw [run]
    apply tells_answer
    exact tells_receiveSignedTask lib peerId payload signatureHex now
  | transitionTask taskId next now =>
    rw [run]
    apply tells_answer
    exact tells_transitionTask lib taskId next now
  | recordSignedResult peerId payload signatureHex now =>
    rw [run]
    apply tells_answer
    exact tells_recordSignedResult lib peerId payload signatureHex now

abbrev HostPool (V SK : Type) := Pool PairedHosts (Call V SK) (Except PairedHostError (Reply V))

abbrev HostEvent (V SK : Type) := Event (Call V SK) (Except PairedHostError (Reply V)) Empty

def hostStep : HostPool V SK → HostEvent V SK → HostPool V SK → Prop :=
  Pool.Step (fun _ => run lib) (fun _ e => e.elim)

def unpaired : HostPool V SK := ⟨.empty, fun _ => none⟩

/-- The write of a `transition_task`, the step after its read, finds the task active or at the status it writes. -/
def Timely (p : HostPool V SK) (e : HostEvent V SK) : Prop :=
  ∀ i taskId next now q, e = .step i → p.procs i = some (.transitionTask taskId next now, q) →
    q ≠ run lib (.transitionTask taskId next now) →
    ∀ r, p.shared.tasks.row taskId = some r → r.status.active = true ∨ r.status = next

def TimelyStep (p : HostPool V SK) (e : HostEvent V SK) (p' : HostPool V SK) : Prop := hostStep lib p e p' ∧ Timely lib p e

structure Stepped (es : List (HostEvent V SK)) (p p' : HostPool V SK) (i : Nat) (c : Call V SK)
    (begun : HostPool V SK) (since : List (HostEvent V SK)) (met : List PairedHosts) : Prop where
  called : Pool.Since (TimelyStep lib) unpaired es p i c begun since
  in_ : ∃ q, p.procs i = some (c, q)
  met_at : ∀ s ∈ met, Pool.Met (TimelyStep lib) begun since p s
  move : HostMove lib c met p.shared p'.shared
  timely : ∀ taskId next now, c = .transitionTask taskId next now →
    ∀ r, p.shared.tasks.row taskId = some r → r.status.active = true ∨ r.status = next

section Runs

variable {es : List (HostEvent V SK)} {p p' : HostPool V SK} {e : HostEvent V SK}

theorem stepped (hrun : Run (TimelyStep lib) unpaired es p) (h : TimelyStep lib p e p') :
    p'.shared = p.shared ∨ ∃ i c begun since met, e = .step i ∧ Stepped lib es p p' i c begun since met := by
  obtain ⟨hstep, htimely⟩ := h
  cases e with
  | call i c | returns i c a => exact .inl (by rw [hstep.2])
  | crash i => exact .inl (by rw [show p' = _ from hstep])
  | env o => exact o.elim
  | step i =>
    obtain ⟨c, q, begun, since, met, hq, hsince, hmet, hmove⟩ :=
      Pool.tells_step (Q := fun _ _ _ _ => True) (fun _ _ _ h => h.1) (fun _ => rfl) (fun _ c => tells_run lib c) hrun
        hstep
    by_cases hfirst : ∃ taskId next now, c = .transitionTask taskId next now ∧ q = run lib c
    · -- the read of a transition
      obtain ⟨taskId, next, now, rfl, rfl⟩ := hfirst
      obtain ⟨c', next', cont, hq', rfl⟩ := hstep
      rw [hq] at hq'
      obtain ⟨-, hop⟩ := Prod.mk.inj (Option.some.inj hq')
      have hid : next' = id := (Prog.op.inj hop).1.symm
      exact .inl (by rw [hid]; rfl)
    · refine .inr ⟨i, c, begun, since, met, rfl, hsince, ⟨q, hq⟩, hmet, hmove, ?_⟩
      rintro taskId next now rfl
      exact htimely i taskId next now q rfl hq fun hq => hfirst ⟨taskId, next, now, rfl, hq⟩

/-! ### What a task was created with -/

structure SameTask (r r' : DelegatedTaskRow) : Prop where
  peerId : r'.peerId = r.peerId
  taskJson : r'.taskJson = r.taskJson
  authority : r'.authority = r.authority
  dataLabels : r'.dataLabels = r.dataLabels
  createdAt : r'.createdAt = r.createdAt

theorem SameTask.refl (r : DelegatedTaskRow) : SameTask r r := ⟨rfl, rfl, rfl, rfl, rfl⟩

variable {r r' r'' : DelegatedTaskRow}

theorem SameTask.trans (h : SameTask r r') (h' : SameTask r' r'') : SameTask r r'' :=
  ⟨h'.1.trans h.1, h'.2.trans h.2, h'.3.trans h.3, h'.4.trans h.4, h'.5.trans h.5⟩

structure TaskStep (r r' : DelegatedTaskRow) : Prop where
  same : SameTask r r'
  final : r.status.active = false → r'.status = r.status ∧ r'.artifacts = r.artifacts

theorem TaskStep.refl (r : DelegatedTaskRow) : TaskStep r r := ⟨.refl r, fun _ => ⟨rfl, rfl⟩⟩

theorem TaskStep.trans (h : TaskStep r r') (h' : TaskStep r' r'') : TaskStep r r'' where
  same := h.same.trans h'.same
  final := by
    intro hr
    obtain ⟨hs, ha⟩ := h.final hr
    obtain ⟨hs', ha'⟩ := h'.final (by rw [hs]; exact hr)
    exact ⟨hs'.trans hs, ha'.trans ha⟩

variable {r : DelegatedTaskRow} {id : String} {c : Call V SK} {since : List (HostEvent V SK)} {met : List PairedHosts}
  {begun : HostPool V SK}

theorem Stepped.task {i : Nat} (h : Stepped lib es p p' i c begun since met) (hr : p.shared.tasks.row id = some r) :
    ∃ r', p'.shared.tasks.row id = some r' ∧ TaskStep r r' := by
  obtain ⟨-, -, -, hmove, htimely⟩ := h
  generalize p'.shared = t' at hmove
  cases hmove with
  | still => exact ⟨r, hr, .refl r⟩
  | paired request call tasks others | revoked tasks fewer => exact ⟨r, by rw [tasks, hr], .refl r⟩
  | created row peers allowed verified pending empty fresh tasks => exact ⟨r, by rw [tasks, hr, Option.some_or], .refl r⟩
  | moved taskId next now call second =>
    rcases Keyed.row_update_cases (k := taskId) (c := statusChange next now) hr with h | ⟨rfl, -, h⟩
    · exact ⟨r, h, .refl r⟩
    · refine ⟨_, h, ⟨rfl, rfl, rfl, rfl, rfl⟩, fun hfinal => ⟨?_, rfl⟩⟩
      -- a late write finds the status it writes
      rcases htimely _ next now call r hr with hactive | hnext
      · rw [hactive] at hfinal
        cases hfinal
      · exact hnext.symm
  | finished taskId peerId next artifacts now verified ends labelled =>
    rcases Keyed.row_update_cases (k := taskId) (c := resultChange peerId next artifacts now) hr with
      h | ⟨rfl, htakes, h⟩
    · exact ⟨r, h, .refl r⟩
    · refine ⟨_, h, ⟨rfl, rfl, rfl, rfl, rfl⟩, fun hfinal => ?_⟩
      have hactive : r.status.active = true := (Bool.and_eq_true_iff.1 htakes).2
      rw [hactive] at hfinal
      cases hfinal

theorem task_step (hrun : Run (TimelyStep lib) unpaired es p) (h : TimelyStep lib p e p')
    (hr : p.shared.tasks.row id = some r) : ∃ r', p'.shared.tasks.row id = some r' ∧ TaskStep r r' := by
  rcases stepped lib hrun h with hsame | ⟨i, c, begun, since, met, -, hstepped⟩
  · exact ⟨r, by rw [hsame, hr], .refl r⟩
  · exact hstepped.task lib hr

theorem task_run (hrun : Run (TimelyStep lib) unpaired es p) {later : List (HostEvent V SK)}
    (hlater : Run (TimelyStep lib) p later p') (hr : p.shared.tasks.row id = some r) :
    ∃ r', p'.shared.tasks.row id = some r' ∧ TaskStep r r' := by
  induction later generalizing es p r with
  | nil =>
    obtain rfl := hlater
    exact ⟨r, hr, .refl r⟩
  | cons e later ih =>
    obtain ⟨m, hm, hlater⟩ := hlater
    obtain ⟨r', hr', hstep⟩ := task_step lib hrun hm hr
    obtain ⟨r'', hr'', hsteps⟩ := ih (run_snoc.2 ⟨p, hrun, hm⟩) hlater hr'
    exact ⟨r'', hr'', hstep.trans hsteps⟩

structure TaskOk (r : DelegatedTaskRow) : Prop where
  ended : r.artifacts ≠ [] → r.status = .completed ∨ r.status = .failed
  labelled : ∀ a ∈ r.artifacts, a.dataLabels ⊆ r.dataLabels

theorem TaskOk.of_empty (h : r.artifacts = []) : TaskOk r :=
  ⟨fun hne => absurd h hne, fun a ha => by rw [h] at ha; cases ha⟩

theorem TaskOk.empty_of_active (h : TaskOk r) (hr : r.status.active = true) : r.artifacts = [] := by
  by_contra hne
  rcases h.ended hne with hs | hs <;> rw [hs] at hr <;> cases hr

theorem Stepped.taskOk {i : Nat} (h : Stepped lib es p p' i c begun since met)
    (hok : ∀ id r, p.shared.tasks.row id = some r → TaskOk r) {r' : DelegatedTaskRow}
    (hr' : p'.shared.tasks.row id = some r') : TaskOk r' := by
  obtain ⟨hcalled, -, hmet, hmove, htimely⟩ := h
  generalize p'.shared = t' at hmove hr'
  cases hmove with
  | still => exact hok id r' hr'
  | paired request call tasks others | revoked tasks fewer => exact hok id r' (tasks ▸ hr')
  | created row peers allowed verified pending empty fresh tasks =>
    rw [tasks] at hr'
    rcases Option.or_eq_some_iff.1 hr' with hr | ⟨-, hr⟩
    · exact hok id r' hr
    · split at hr
      · exact .of_empty (Option.some.inj hr ▸ empty)
      · cases hr
  | moved taskId next now call second =>
    cases hr : p.shared.tasks.row id with
    | none => rw [Keyed.row_update_eq_none hr] at hr'; cases hr'
    | some r =>
      have hrok := hok id r hr
      rcases Keyed.row_update_cases (k := taskId) (c := statusChange next now) hr with h | ⟨rfl, -, h⟩ <;>
        cases h.symm.trans hr'
      · exact hrok
      · rcases htimely _ next now call r hr with hactive | rfl
        · exact .of_empty (hrok.empty_of_active hactive)
        · exact ⟨hrok.ended, hrok.labelled⟩
  | finished taskId peerId next artifacts now verified ends labelled =>
    cases hr : p.shared.tasks.row id with
    | none => rw [Keyed.row_update_eq_none hr] at hr'; cases hr'
    | some r =>
      rcases Keyed.row_update_cases (k := taskId) (c := resultChange peerId next artifacts now) hr with
        h | ⟨rfl, -, h⟩ <;> obtain rfl := Option.mem_unique h hr'
      · exact hok id _ hr
      · -- the labels the result was checked against are still the task's
        obtain ⟨s, hs, q, hq, hlabels⟩ := labelled
        obtain ⟨pre, post, m, hpre, hpost, rfl⟩ := (hmet s hs).split hcalled
        obtain ⟨r', hrow, hstep⟩ := task_run lib hpre hpost hq
        obtain rfl := Option.mem_unique hrow hr
        refine ⟨fun _ => ends, fun a ha => ?_⟩
        rw [show ((resultChange peerId next artifacts now).set r').dataLabels = q.dataLabels from hstep.same.dataLabels]
        exact hlabels a ha

theorem taskOk_run (hrun : Run (TimelyStep lib) unpaired es p) (hr : p.shared.tasks.row id = some r) : TaskOk r := by
  induction es using List.reverseRecOn generalizing p id r with
  | nil =>
    obtain rfl := hrun
    cases hr
  | append_singleton es e ih =>
    obtain ⟨m, hm, hstep⟩ := run_snoc.1 hrun
    rcases stepped lib hm hstep with hsame | ⟨i, c, begun, since, met, -, hstepped⟩
    · exact ih hm (hsame ▸ hr)
    · exact hstepped.taskOk lib (fun _ _ h => ih hm h) hr

/-! ### What a call may store -/

theorem created_step (hrun : Run (TimelyStep lib) unpaired es p) (h : TimelyStep lib p e p')
    (hnone : p.shared.tasks.row id = none) (hr : p'.shared.tasks.row id = some r) :
    ∃ i c begun since s, e = .step i ∧ Pool.Since (TimelyStep lib) unpaired es p i c begun since ∧
      Pool.Met (TimelyStep lib) begun since p s ∧ Allowed s r.peerId r.authority r.dataLabels := by
  rcases stepped lib hrun h with hsame | ⟨i, c, begun, since, met, rfl, hcalled, -, hmet, hmove, -⟩
  · rw [hsame, hnone] at hr
    cases hr
  generalize p'.shared = t' at hmove hr
  cases hmove with
  | still => rw [hnone] at hr; cases hr
  | paired request call tasks others | revoked tasks fewer => rw [tasks, hnone] at hr; cases hr
  | created row peers allowed verified pending empty fresh tasks =>
    rw [tasks, hnone, Option.none_or] at hr
    split at hr
    · cases hr
      obtain ⟨s, hs, hallowed⟩ := allowed
      exact ⟨i, c, begun, since, s, rfl, hcalled, hmet s hs, hallowed⟩
    · cases hr
  | moved taskId next now call second => rw [Keyed.row_update_eq_none hnone] at hr; cases hr
  | finished taskId peerId next artifacts now verified ends labelled =>
    rw [Keyed.row_update_eq_none hnone] at hr
    cases hr

theorem signed_step (hrun : Run (TimelyStep lib) unpaired es p) {i : Nat} (h : TimelyStep lib p (.step i) p')
    (hne : p'.shared.tasks ≠ p.shared.tasks) {q : Prog PairedHosts (Except PairedHostError (Reply V))}
    (hi : p.procs i = some (c, q)) {peerId : String} {payload : List UInt8} {signatureHex : String}
    (hsigned : signature c = some (peerId, payload, signatureHex)) :
    ∃ begun since s, Pool.Since (TimelyStep lib) unpaired es p i c begun since ∧
      Pool.Met (TimelyStep lib) begun since p s ∧ Signed lib s peerId payload signatureHex := by
  rcases stepped lib hrun h with hsame | ⟨j, d, begun, since, met, hj, hcalled, ⟨q', hq'⟩, hmet, hmove, -⟩
  · exact absurd (by rw [hsame]) hne
  obtain rfl := Event.step.inj hj
  rw [hi] at hq'
  cases hq'
  have hverified : Verified lib c met → ∃ begun since s, Pool.Since (TimelyStep lib) unpaired es p i c begun since ∧
      Pool.Met (TimelyStep lib) begun since p s ∧ Signed lib s peerId payload signatureHex := by
    intro hverified
    obtain ⟨s, hs, hs'⟩ := hverified peerId payload signatureHex hsigned
    exact ⟨begun, since, s, hcalled, hmet s hs, hs'⟩
  generalize p'.shared = t' at hmove hne
  cases hmove with
  | still => exact absurd rfl hne
  | paired request call tasks others | revoked tasks fewer => exact absurd tasks hne
  | created row peers allowed verified pending empty fresh tasks => exact hverified verified
  | moved taskId next now call second => rw [call] at hsigned; cases hsigned
  | finished taskId peerId next artifacts now verified ends labelled => exact hverified verified


theorem revoked_step (hrun : Run (TimelyStep lib) unpaired es p) (h : TimelyStep lib p e p') {peerId : String}
    (hbefore : ∀ r, p.shared.peers.row peerId = some r → r.active = false) {r : PairedHostRow}
    (hr : p'.shared.peers.row peerId = some r) (hactive : r.active = true) :
    ∃ i request q, e = .step i ∧ p.procs i = some (.pair request, q) ∧ request.peerId = peerId := by
  have hfewer : p.shared.peers.row peerId = some r → False := by
    intro hrow
    rw [hbefore r hrow] at hactive
    cases hactive
  rcases stepped lib hrun h with hsame | ⟨i, c, begun, since, met, rfl, -, ⟨q, hq⟩, -, hmove, -⟩
  · exact (hfewer (hsame ▸ hr)).elim
  generalize p'.shared = t' at hmove hr
  cases hmove with
  | still | moved taskId next now call second => exact (hfewer hr).elim
  | paired request call tasks others =>
    subst call
    refine ⟨i, request, q, rfl, hq, ?_⟩
    by_contra hpeer
    exact hfewer ((others peerId (Ne.symm hpeer)).symm.trans hr)
  | revoked tasks fewer => exact (hfewer (fewer peerId r hr hactive)).elim
  | created row peers allowed verified pending empty fresh tasks => exact (hfewer (peers ▸ hr)).elim
  | finished taskId peerId next artifacts now verified ends labelled => exact (hfewer hr).elim

/-- **What holds of delegated tasks**, in a pool `p` reached by the events `es`. -/
structure Delegated (es : List (HostEvent V SK)) (p : HostPool V SK) : Prop where
  final : ∀ later p', Run (TimelyStep lib) p later p' → ∀ id r, p.shared.tasks.row id = some r →
    r.status.active = false →
    ∃ r', p'.shared.tasks.row id = some r' ∧ r'.status = r.status ∧ r'.artifacts = r.artifacts
  ended : ∀ r ∈ p.shared.tasks.rows, r.artifacts ≠ [] → r.status = .completed ∨ r.status = .failed
  labelled : ∀ r ∈ p.shared.tasks.rows, ∀ a ∈ r.artifacts, a.dataLabels ⊆ r.dataLabels
  fixed : ∀ later p', Run (TimelyStep lib) p later p' → ∀ id r, p.shared.tasks.row id = some r →
    ∃ r', p'.shared.tasks.row id = some r' ∧ SameTask r r'
  created : ∀ e p', TimelyStep lib p e p' → ∀ id r, p.shared.tasks.row id = none → p'.shared.tasks.row id = some r →
    ∃ i c begun since s, e = .step i ∧ Pool.Since (TimelyStep lib) unpaired es p i c begun since ∧
      Pool.Met (TimelyStep lib) begun since p s ∧ Allowed s r.peerId r.authority r.dataLabels
  one : ∀ r ∈ p.shared.tasks.rows, ∀ r' ∈ p.shared.tasks.rows, r.taskId = r'.taskId → r = r'
  signed : ∀ i p', TimelyStep lib p (.step i) p' → p'.shared.tasks ≠ p.shared.tasks →
    ∀ c q, p.procs i = some (c, q) → ∀ peerId payload signatureHex,
      signature c = some (peerId, payload, signatureHex) →
    ∃ begun since s, Pool.Since (TimelyStep lib) unpaired es p i c begun since ∧
      Pool.Met (TimelyStep lib) begun since p s ∧ Signed lib s peerId payload signatureHex
  revoked : ∀ e p', TimelyStep lib p e p' → ∀ peerId,
    (∀ r, p.shared.peers.row peerId = some r → r.active = false) →
    ∀ r, p'.shared.peers.row peerId = some r → r.active = true →
    ∃ i request q, e = .step i ∧ p.procs i = some (.pair request, q) ∧ request.peerId = peerId

/-- **Delegated tasks keep their ends, their labels and their creation**, in every run in which the write of each
`transition_task` is timely. -/
theorem delegated (hrun : Run (TimelyStep lib) unpaired es p) : Delegated lib es p where
  final := by
    intro later p' hlater id r hr hfinal
    obtain ⟨r', hr', hstep⟩ := task_run lib hrun hlater hr
    exact ⟨r', hr', hstep.final hfinal⟩
  ended := fun r hr => (taskOk_run lib hrun (Keyed.row_iff.2 ⟨hr, rfl⟩)).ended
  labelled := fun r hr => (taskOk_run lib hrun (Keyed.row_iff.2 ⟨hr, rfl⟩)).labelled
  fixed := by
    intro later p' hlater id r hr
    obtain ⟨r', hr', hstep⟩ := task_run lib hrun hlater hr
    exact ⟨r', hr', hstep.same⟩
  created := fun _ _ h _ _ hnone hr => created_step lib hrun h hnone hr
  one := by
    intro r hr r' hr' hid
    have hrow : p.shared.tasks.row r.taskId = some r := Keyed.row_iff.2 ⟨hr, rfl⟩
    have hrow' : p.shared.tasks.row r.taskId = some r' := Keyed.row_iff.2 ⟨hr', hid.symm⟩
    exact Option.mem_unique hrow hrow'
  signed := fun _ _ h hne _ _ hi _ _ _ hsigned => signed_step lib hrun h hne hi hsigned
  revoked := fun _ _ h _ hbefore _ hr hactive => revoked_step lib hrun h hbefore hr hactive

def hostPlay (p : HostPool V SK) (ts : List (Turn (Call V SK) Empty)) : Option (HostPool V SK) :=
  p.play (fun _ => run lib) (fun _ (e : Empty) => e.elim) ts

variable {ts : List (Turn (Call V SK) Empty)}

theorem run_of_hostPlay (h : hostPlay lib p ts = some p') : ∃ es, Run (hostStep lib) p es p' :=
  Pool.run_of_play h

def timelyTurn (p : HostPool V SK) : Turn (Call V SK) Empty → Bool
  | .step i =>
    match p.procs i with
    | some (.transitionTask taskId next _, _) =>
      (p.shared.tasks.row taskId).all (fun r => r.status.active || r.status == next)
    | _ => true
  | _ => true

def timelyPlay (p : HostPool V SK) : List (Turn (Call V SK) Empty) → Option (HostPool V SK)
  | [] => some p
  | t :: ts =>
    if timelyTurn p t then (p.turn (fun _ => run lib) (fun _ e => e.elim) t).bind (fun m => timelyPlay m ts) else none

theorem run_of_timelyPlay (h : timelyPlay lib p ts = some p') : ∃ es, Run (TimelyStep lib) p es p' := by
  induction ts generalizing p with
  | nil => exact ⟨[], Option.some.inj h⟩
  | cons t ts ih =>
    unfold timelyPlay at h
    split at h
    · next htimely =>
      obtain ⟨m, hm, hplay⟩ := Option.bind_eq_some_iff.1 h
      obtain ⟨es, hes⟩ := ih hplay
      obtain ⟨e, he, hturn⟩ := Pool.step_of_turn hm
      refine ⟨e :: es, m, ⟨he, ?_⟩, hes⟩
      rintro i taskId next now q rfl hq - r hr
      obtain rfl := hturn i rfl
      simpa [timelyTurn, hq, hr] using htimely
    · cases h

end Runs

theorem zeroSignature_length : ∀ (_ : Unit) (_ : List UInt8), (List.replicate 64 (0 : UInt8)).length = 64 :=
  fun _ _ => rfl

theorem zeroSignature_verifies : ∀ (_ : Unit) (_ : List UInt8),
    (List.replicate 64 (0 : UInt8) == List.replicate 64 0) = true := fun _ _ => by decide

def sampleLib : HostLib String Unit Unit where
  taskToString := .ok
  taskFromStr := .ok
  isNull := fun v => v == "null"
  envelopeToVec := fun _ => .error "not written"
  envelopeFromSlice := fun bytes => if bytes = [1] then .ok ⟨"t", "\"x\"", ["read"], ["public"]⟩ else .error "not read"
  resultFromSlice := fun bytes =>
    if bytes = [2] then .ok ⟨"t", "completed", [⟨"a", "text", "text/plain", "".pushn 'a' 64, 12, ["public"]⟩]⟩
    else .error "not read"
  parseUrl := fun _ => .ok ⟨"https", "", none, none, none, some "localhost"⟩
  parseIp := fun _ => none
  sha256Hex := fun _ => "".pushn '0' 64
  keyFromBytes := fun _ => some ()
  verify := fun _ _ signature => signature == List.replicate 64 0
  sign := fun _ _ => List.replicate 64 0
  verifyingKey := fun _ => ()
  sign_length := zeroSignature_length
  sign_verifies := zeroSignature_verifies
  envelope_reads := fun _ _ h => by cases h

def samplePairing : PairOperatorHostRequest :=
  ⟨"p", "https://localhost", "https://localhost", "".pushn '0' 64, ["read"], ["public"], "Controller", "op", 1⟩

abbrev SampleTurn := Turn (Call String Unit) Empty

def receivedTurns : List SampleTurn :=
  [.call 0 (.pair samplePairing), .step 0, .returns 0, .call 0 (.receiveSignedTask "p" [1] ("".pushn '0' 128) 2), .step 0,
    .step 0, .returns 0]

def acceptedTurns : List SampleTurn :=
  [.call 1 (.transitionTask "t" .accepted 3), .step 1, .step 1, .returns 1,
    .call 2 (.recordSignedResult "p" [2] ("".pushn '0' 128) 4), .step 2, .step 2, .step 2, .step 2, .returns 2]

theorem delegated_sample : ∃ es p, Run (TimelyStep sampleLib) unpaired es p ∧ Delegated sampleLib es p ∧
    p.shared.tasks.rows.map (fun r => (r.status, r.artifacts.length)) = [(.completed, 1)] := by
  have hplay : (timelyPlay sampleLib unpaired (receivedTurns ++ acceptedTurns)).map
      (fun p => p.shared.tasks.rows.map (fun r => (r.status, r.artifacts.length))) = some [(.completed, 1)] := by
    decide +kernel
  obtain ⟨p, hp, hrows⟩ := Option.map_eq_some_iff.1 hplay
  obtain ⟨es, hes⟩ := run_of_timelyPlay sampleLib hp
  exact ⟨es, p, hes, delegated sampleLib hes, hrows⟩

def cancelRead : List SampleTurn :=
  [.call 1 (.transitionTask "t" .cancelled 3), .step 1, .call 2 (.recordSignedResult "p" [2] ("".pushn '0' 128) 4),
    .step 2, .step 2, .step 2]

/-- The write of a cancellation lands on the completed task: cancelled, with the artifacts of its result. -/
theorem completed_task_cancelled : ∃ earlier later p p', Run (hostStep sampleLib) unpaired earlier p ∧
    Run (hostStep sampleLib) p later p' ∧
    p.shared.tasks.rows.map (fun r => (r.taskId, r.status)) = [("t", .completed)] ∧
    p'.shared.tasks.rows.map (fun r => (r.taskId, r.status, r.artifacts.length)) = [("t", .cancelled, 1)] := by
  have hplay : ((hostPlay sampleLib unpaired (receivedTurns ++ cancelRead)).bind
      fun p => (hostPlay sampleLib p [.step 1]).map fun p' =>
        (p.shared.tasks.rows.map (fun r => (r.taskId, r.status)),
          p'.shared.tasks.rows.map (fun r => (r.taskId, r.status, r.artifacts.length)))) =
      some ([("t", .completed)], [("t", .cancelled, 1)]) := by
    decide +kernel
  obtain ⟨p, hp, hplay⟩ := Option.bind_eq_some_iff.1 hplay
  obtain ⟨p', hp', hrows⟩ := Option.map_eq_some_iff.1 hplay
  obtain ⟨hbefore, hafter⟩ := Prod.mk.inj hrows
  obtain ⟨earlier, hearlier⟩ := run_of_hostPlay sampleLib hp
  obtain ⟨later, hlater⟩ := run_of_hostPlay sampleLib hp'
  exact ⟨earlier, later, p, p', hearlier, hlater, hbefore, hafter⟩

end PairedHostStore

end Execlaw
