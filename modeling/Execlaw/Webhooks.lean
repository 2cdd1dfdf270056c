import Execlaw.Calls
import Execlaw.Keyed
import Execlaw.Leases
import Execlaw.Outbox
/-!
# Webhooks — delivery receipts (`core/src/webhook_receipts.rs`)

A delivery is claimed once; a claim whose handler died is taken over when its lease has run out, and a delivery that
was accepted or rejected stays so.  The receipt of a delivery names no handler: `complete` and `release` find it by its
key.  `Webhooks` runs the store beside the handlers that hold its claims.
-/
namespace Execlaw

open Table Leases

/-! ## The store -/

structure ReceiptKey where
  pluginId : String
  routeKey : String
  eventId : String
deriving DecidableEq

inductive WebhookOutcome | processing | accepted | rejected
deriving DecidableEq

inductive WebhookClaim | claimed | alreadyProcessed

structure ReceiptRow where
  receipt : ReceiptKey
  receivedAt : Int
  outcome : WebhookOutcome
  leaseExpiresAt : Option Int
deriving DecidableEq

/-- The identity `claim` requires. -/
def ReceiptKey.identified (k : ReceiptKey) : Bool :=
  !((trim k.pluginId).isEmpty || (trim k.routeKey).isEmpty || (trim k.eventId).isEmpty)

structure ReceiptRow.Ok (r : ReceiptRow) : Prop where
  identified : r.receipt.identified = true
  leased : r.outcome = .processing ↔ r.leaseExpiresAt.isSome = true

abbrev WebhookReceipts := Keyed ReceiptRow.receipt ReceiptRow.Ok

namespace WebhookReceiptStore

abbrev ReceiptChange := Change ReceiptRow.receipt ReceiptRow.Ok

def reclaimChange (now : Int) : ReceiptChange where
  takes := fun r => r.outcome == .processing && r.leaseExpiresAt.any (fun e => decide (e ≤ now))
  set := fun r =>
    { r with receivedAt := now, outcome := .processing, leaseExpiresAt := some (saturatingAdd now 300) }
  key_set := fun _ => rfl
  keeps_ok := fun _ h _ => ⟨h.identified, iff_of_true rfl rfl⟩

def newReceipt (k : ReceiptKey) (now : Int) : ReceiptRow where
  receipt := k
  receivedAt := now
  outcome := .processing
  leaseExpiresAt := some (saturatingAdd now 300)

def claim (k : ReceiptKey) (now : Int) (t : WebhookReceipts) : Except DbError WebhookClaim × WebhookReceipts :=
  if h : k.identified = true then
    if t.changed k (reclaimChange now) then (.ok .claimed, t.update k (reclaimChange now))
    else
      (.ok (if (t.row k).isSome then .alreadyProcessed else .claimed),
        t.insertOrIgnore (newReceipt k now) ⟨h, iff_of_true rfl rfl⟩)
  else (.error (.invariant "webhook receipt identity is required"), t)

def finalOutcome (outcome : String) : Option WebhookOutcome :=
  if outcome = "accepted" then some .accepted else if outcome = "rejected" then some .rejected else none

theorem finalOutcome_ne {outcome : String} {o : WebhookOutcome} (h : finalOutcome outcome = some o) :
    o ≠ .processing := by
  unfold finalOutcome at h
  split at h
  · cases h
    nofun
  · split at h <;> cases h
    nofun

def completeChange (o : WebhookOutcome) (ho : o ≠ .processing) : ReceiptChange where
  takes := fun r => r.outcome == .processing
  set := fun r => { r with outcome := o, leaseExpiresAt := none }
  key_set := fun _ => rfl
  keeps_ok := fun _ h _ => ⟨h.identified, iff_of_false ho nofun⟩

def complete (k : ReceiptKey) (outcome : String) (t : WebhookReceipts) : Except DbError Unit × WebhookReceipts :=
  match h : finalOutcome outcome with
  | none => (.error (.invariant "webhook outcome must be accepted or rejected"), t)
  | some o => (.ok (), t.update k (completeChange o (finalOutcome_ne h)))

def release (k : ReceiptKey) (t : WebhookReceipts) : Except DbError Unit × WebhookReceipts :=
  (.ok (), t.remove k (fun r => r.outcome == .processing))

def leaseOn (t : WebhookReceipts) (k : ReceiptKey) : Option Int := (t.row k).bind ReceiptRow.leaseExpiresAt

def processing (t : WebhookReceipts) (k : ReceiptKey) : Bool := (t.row k).any (fun r => r.outcome == .processing)

def settled (t : WebhookReceipts) (k : ReceiptKey) : Bool := (t.row k).any (fun r => r.outcome != .processing)

end WebhookReceiptStore

/-! ## Its handlers -/

section Handlers

variable {H : Type} [DecidableEq H]

inductive WebhookCall (H : Type)
  | claim (handler : H) (receipt : ReceiptKey) (now : Int)
  | complete (handler : H) (receipt : ReceiptKey) (outcome : String)
  | release (handler : H) (receipt : ReceiptKey)

structure Webhooks (H : Type) where
  receipts : WebhookReceipts
  held : List (Lease ReceiptKey H)

inductive WebhookReply | claim (claim : WebhookClaim) | done

def Webhooks.empty : Webhooks H := ⟨.empty, []⟩

open WebhookReceiptStore in
/-- **One call of a handler**: a claim granted is held, and a handler that completed or released holds no more. -/
def Webhooks.exec (s : Webhooks H) : WebhookCall H → Except DbError WebhookReply × Webhooks H
  | .claim handler k now =>
    match claim k now s.receipts with
    | (.error e, t) => (.error e, { s with receipts := t })
    | (.ok .claimed, t) => (.ok (.claim .claimed), ⟨t, grant ⟨k, handler, now, saturatingAdd now 300⟩ s.held⟩)
    | (.ok .alreadyProcessed, t) => (.ok (.claim .alreadyProcessed), { s with receipts := t })
  | .complete handler k outcome =>
    match complete k outcome s.receipts with
    | (.error e, t) => (.error e, { s with receipts := t })
    | (.ok (), t) => (.ok .done, ⟨t, giveUp k handler s.held⟩)
  | .release handler k =>
    match release k s.receipts with
    | (.error e, t) => (.error e, { s with receipts := t })
    | (.ok (), t) => (.ok .done, ⟨t, giveUp k handler s.held⟩)

def Webhooks.holds (s : Webhooks H) (handler : H) (k : ReceiptKey) : Bool :=
  s.held.any (fun l => decide (l.key = k) && decide (l.holder = handler))

def Webhooks.late (s : Webhooks H) : WebhookCall H → Bool
  | .claim .. => false
  | .complete handler k _ => !s.holds handler k
  | .release handler k => !s.holds handler k

/-- **The calls that find what they are about**: an outcome of a handler that holds no claim meets a delivery that is
not being processed, or names no final status. -/
def Webhooks.Timely (s : Webhooks H) : WebhookCall H → Prop
  | .claim .. => True
  | .complete handler k outcome =>
    s.holds handler k = false →
      WebhookReceiptStore.processing s.receipts k = false ∨ WebhookReceiptStore.finalOutcome outcome = none
  | .release handler k => s.holds handler k = false → WebhookReceiptStore.processing s.receipts k = false

def Webhooks.run (calls : List (WebhookCall H)) : Webhooks H := Calls.after Webhooks.exec .empty calls

/-- **Deliveries are processed by one handler at a time.** -/
structure Webhooks.OneAtATime (calls : List (WebhookCall H)) : Prop where
  exclusive : ∀ pre post, calls = pre ++ post → Exclusive (run pre).held
  final : ∀ pre mid post, calls = pre ++ mid ++ post → ∀ k,
    WebhookReceiptStore.settled (run pre).receipts k = true →
      (run (pre ++ mid)).receipts.row k = (run pre).receipts.row k ∧
        ∀ handler now, ((run (pre ++ mid)).exec (.claim handler k now)).1 = .ok (.claim .alreadyProcessed)
  late : ∀ pre c post, calls = pre ++ c :: post → (run pre).late c = true →
    ((run pre).exec c).2.receipts = (run pre).receipts

end Handlers

/-! ## What a call does -/

namespace WebhookReceiptStore

variable {t : WebhookReceipts} {k : ReceiptKey}

theorem processing_iff : processing t k = true ↔ ∃ r, t.row k = some r ∧ r.outcome = .processing := by
  cases h : t.row k <;> simp [processing, h]

theorem settled_iff : settled t k = true ↔ ∃ r, t.row k = some r ∧ r.outcome ≠ .processing := by
  cases h : t.row k <;> simp [settled, h]

theorem leaseOn_eq_some {e : Int} : leaseOn t k = some e ↔ ∃ r, t.row k = some r ∧ r.leaseExpiresAt = some e := by
  rw [leaseOn, Option.bind_eq_some_iff]

/-- **A claim is granted** where no lease stands that has not run out, and stands until its own runs out; else it
changes nothing. -/
theorem claim_cases (k : ReceiptKey) (now : Int) (t : WebhookReceipts) :
    (k.identified = false ∧ claim k now t = (.error (.invariant "webhook receipt identity is required"), t)) ∨
      (claim k now t = (.ok .alreadyProcessed, t) ∧ (t.row k).isSome = true) ∨
      (settled t k = false ∧ ∃ t', claim k now t = (.ok .claimed, t') ∧ (∀ e, leaseOn t k = some e → e ≤ now) ∧
        leaseOn t' k = some (saturatingAdd now 300) ∧ ∀ j, j ≠ k → t'.row j = t.row j) := by
  unfold claim
  by_cases hid : k.identified = true
  swap
  · rw [dif_neg hid]
    exact .inl ⟨Bool.not_eq_true _ ▸ hid, rfl⟩
  rw [dif_pos hid]
  cases hchanged : t.changed k (reclaimChange now) with
  | true =>
    rw [if_pos rfl]
    obtain ⟨r, hr, htakes⟩ := Keyed.changed_iff.1 hchanged
    have hrow := Keyed.row_update_of_changed hr htakes
    rw [reclaimChange, Bool.and_eq_true, beq_iff_eq] at htakes
    refine .inr (.inr ⟨by simp [settled, hr, htakes.1], _, rfl, ?_, leaseOn_eq_some.2 ⟨_, hrow, rfl⟩,
      fun j hj => Keyed.row_update_of_ne t hj _⟩)
    intro e he
    obtain ⟨q, hq, hqe⟩ := leaseOn_eq_some.1 he
    cases hr.symm.trans hq
    simpa [hqe] using htakes.2
  | false =>
    rw [if_neg Bool.false_ne_true]
    cases hrow : t.row k with
    | some r =>
      rw [Keyed.insertOrIgnore_of_isSome _ (by simp [newReceipt, hrow])]
      exact .inr (.inl ⟨rfl, rfl⟩)
    | none =>
      refine .inr (.inr ⟨by simp [settled, hrow], _, rfl, ?_, ?_, ?_⟩)
      · simp [leaseOn, hrow]
      · refine leaseOn_eq_some.2 ⟨newReceipt k now, ?_, rfl⟩
        rw [Keyed.row_insertOrIgnore, hrow]
        exact if_pos rfl
      · intro j hj
        rw [Keyed.row_insertOrIgnore, if_neg (show (newReceipt k now).receipt ≠ j from Ne.symm hj), Option.or_none]

theorem claim_settled (h : settled t k = true) (now : Int) : claim k now t = (.ok .alreadyProcessed, t) := by
  obtain ⟨r, hr, -⟩ := settled_iff.1 h
  rcases claim_cases k now t with ⟨hid, -⟩ | ⟨hclaim, -⟩ | ⟨hopen, -⟩
  · have hok := (Keyed.ok_of_row hr).identified
    rw [Keyed.key_of_row hr, hid] at hok
    cases hok
  · exact hclaim
  · rw [hopen] at h
    cases h

theorem complete_ok {outcome : String} {o : WebhookOutcome} (h : finalOutcome outcome = some o) :
    ∃ ho, complete k outcome t = (.ok (), t.update k (completeChange o ho)) := by
  unfold complete
  split
  · next hnone =>
    rw [hnone] at h
    cases h
  · next o' ho' =>
    rw [ho'] at h
    cases h
    exact ⟨finalOutcome_ne ho', rfl⟩

theorem complete_error {outcome : String} (h : finalOutcome outcome = none) :
    complete k outcome t = (.error (.invariant "webhook outcome must be accepted or rejected"), t) := by
  unfold complete
  split
  · rfl
  · next o' ho' =>
    rw [ho'] at h
    cases h

theorem complete_eq_self_iff {o : WebhookOutcome} (ho : o ≠ .processing) :
    t.update k (completeChange o ho) = t ↔ processing t k = false := by
  constructor
  · intro heq
    by_contra hproc
    obtain ⟨r, hr, hout⟩ := processing_iff.1 (Bool.not_eq_false _ ▸ hproc)
    have hrow := Keyed.row_update_of_changed (c := completeChange o ho) hr (by simp [completeChange, hout])
    rw [heq, hr] at hrow
    have hset := congrArg ReceiptRow.outcome (Option.some.inj hrow)
    exact ho (hset.symm.trans hout)
  · intro h
    exact Keyed.update_eq_self h

theorem release_eq_self_iff : t.remove k (fun r => r.outcome == .processing) = t ↔ processing t k = false := by
  constructor
  · intro heq
    by_contra hproc
    obtain ⟨r, hr, hout⟩ := processing_iff.1 (Bool.not_eq_false _ ▸ hproc)
    have hrow : (t.remove k (fun r => r.outcome == .processing)).row k = none := by
      rw [Keyed.row_remove, if_pos rfl, hr, Option.filter, hout]
      rfl
    rw [heq, hr] at hrow
    cases hrow
  · intro h
    exact Keyed.remove_eq_self h

end WebhookReceiptStore

namespace Webhooks

open WebhookReceiptStore

variable {H : Type} [DecidableEq H] {s : Webhooks H}

theorem row_update_settled {t : WebhookReceipts} {k j : ReceiptKey} {c : ReceiptChange}
    (h : settled t k = true) (hc : ∀ r, c.takes r = true → r.outcome = .processing) :
    (t.update j c).row k = t.row k := by
  obtain ⟨r, hr, hout⟩ := settled_iff.1 h
  rcases Keyed.row_update_cases (k := j) (c := c) hr with hrow | ⟨-, htakes, -⟩
  · rw [hrow, hr]
  · exact absurd (hc r htakes) hout

variable {k : ReceiptKey}

theorem settled_step (h : settled s.receipts k = true) (c : WebhookCall H) :
    (s.exec c).2.receipts.row k = s.receipts.row k := by
  cases c with
  | claim handler j now =>
    rcases claim_cases j now s.receipts with ⟨-, hclaim⟩ | ⟨hclaim, -⟩ | ⟨hopen, t', hclaim, -, -, hframe⟩
    · simp [exec, hclaim]
    · simp [exec, hclaim]
    · have hne : k ≠ j := by
        rintro rfl
        rw [hopen] at h
        cases h
      simp [exec, hclaim, hframe k hne]
  | complete handler j outcome =>
    cases ho : finalOutcome outcome with
    | none => simp [exec, complete_error ho]
    | some o =>
      obtain ⟨hne, hcomplete⟩ := complete_ok (t := s.receipts) (k := j) ho
      simp only [exec, hcomplete]
      exact row_update_settled h fun r htakes => by simpa [completeChange] using htakes
  | release handler j =>
    simp only [exec, release]
    obtain ⟨r, hr, hout⟩ := settled_iff.1 h
    by_cases hj : k = j
    · subst hj
      rw [Keyed.row_remove, if_pos rfl, hr]
      simp [Option.filter, hout]
    · exact Keyed.row_remove_of_ne hj

variable {c : WebhookCall H}

theorem late_iff (hlate : s.late c = true) : (s.exec c).2.receipts = s.receipts ↔ s.Timely c := by
  cases c with
  | claim handler k now => cases hlate
  | complete handler k outcome =>
    rw [late, Bool.not_eq_true'] at hlate
    cases ho : finalOutcome outcome with
    | none => simp [exec, complete_error ho, Timely, ho]
    | some o =>
      obtain ⟨hne, hcomplete⟩ := complete_ok (t := s.receipts) (k := k) ho
      simp only [exec, hcomplete, Timely, hlate, ho]
      rw [complete_eq_self_iff hne]
      simp
  | release handler k =>
    rw [late, Bool.not_eq_true'] at hlate
    simp only [exec, release, Timely, hlate]
    rw [release_eq_self_iff]
    simp

theorem timely_of_not_late (h : s.late c = false) : s.Timely c := by
  cases c with
  | claim handler k now => trivial
  | complete handler k outcome | release handler k =>
    intro hholds
    rw [late, hholds] at h
    cases h

theorem holds_eq_true {handler : H} : s.holds handler k = true ↔ ∃ l ∈ s.held, l.key = k ∧ l.holder = handler := by
  simp [holds]

theorem recorded_giveUp {t : WebhookReceipts} {handler : H} (h : Recorded (leaseOn s.receipts) s.held)
    (hframe : ∀ j, j ≠ k → t.row j = s.receipts.row j) (htimely : s.holds handler k = false → t = s.receipts) :
    Recorded (leaseOn t) (giveUp k handler s.held) := by
  cases hholds : s.holds handler k with
  | true =>
    obtain ⟨l, hl, hlk, rfl⟩ := holds_eq_true.1 hholds
    refine h.giveUp (fun m hm hmk => ?_) fun j hj => by rw [leaseOn, leaseOn, hframe j hj]
    rw [h.eq_of_key hm hl (hmk.trans hlk.symm)]
  | false =>
    have hnone : ∀ l ∈ s.held, l.key = k → l.holder ≠ handler := by
      intro l hl hlk hlh
      rw [holds_eq_true.2 ⟨l, hl, hlk, hlh⟩] at hholds
      cases hholds
    rw [htimely hholds, giveUp_eq_self hnone]
    exact h

theorem recorded_step (h : Recorded (leaseOn s.receipts) s.held) (htimely : s.Timely c) :
    Recorded (leaseOn (s.exec c).2.receipts) (s.exec c).2.held := by
  cases c with
  | claim handler k now =>
    rcases claim_cases k now s.receipts with ⟨-, hclaim⟩ | ⟨hclaim, -⟩ | ⟨-, t', hclaim, hout, hself, hframe⟩
    · simpa [exec, hclaim] using h
    · simpa [exec, hclaim] using h
    · simp only [exec, hclaim]
      exact h.grant hout hself fun j hj => by rw [leaseOn, leaseOn, hframe j hj]
  | complete handler k outcome =>
    cases ho : finalOutcome outcome with
    | none => simpa [exec, complete_error ho] using h
    | some o =>
      obtain ⟨hne, hcomplete⟩ := complete_ok (t := s.receipts) (k := k) ho
      simp only [exec, hcomplete]
      refine recorded_giveUp h (fun j hj => Keyed.row_update_of_ne _ hj _) fun hholds => ?_
      refine (complete_eq_self_iff hne).2 ((htimely hholds).resolve_right ?_)
      rw [ho]
      nofun
  | release handler k =>
    simp only [exec, release]
    refine recorded_giveUp h (fun j hj => Keyed.row_remove_of_ne hj) fun hholds => ?_
    exact release_eq_self_iff.2 (htimely hholds)

/-- **Deliveries are processed by one handler at a time** exactly where every outcome of a handler that does not hold
the claim, taken over or never its own, finds the delivery no longer processed. -/
theorem one_at_a_time_iff (calls : List (WebhookCall H)) :
    OneAtATime calls ↔ Calls.Guarded Webhooks.exec Timely .empty calls := by
  constructor
  · intro h pre c post hcalls
    cases hlate : (run pre).late c with
    | true => exact (late_iff hlate).1 (h.late pre c post hcalls hlate)
    | false => exact timely_of_not_late hlate
  · intro h
    refine ⟨?_, ?_, ?_⟩
    · rintro pre post rfl
      have hrec : Recorded (leaseOn (run pre).receipts) (run pre).held :=
        h.of_append.invariant (fun s c hs hc => recorded_step hs hc) recorded_nil
      exact hrec.exclusive
    · intro pre mid post _ k hsettled
      have hrow : (run (pre ++ mid)).receipts.row k = (run pre).receipts.row k := by
        rw [run, Calls.after_append]
        refine Calls.after_invariant (I := fun s : Webhooks H => s.receipts.row k = (run pre).receipts.row k) ?_ rfl mid
        intro s c hs
        have hset : settled s.receipts k = true := by
          rw [settled, hs]
          exact hsettled
        exact (settled_step hset c).trans hs
      refine ⟨hrow, fun handler now => ?_⟩
      have hset : settled (run (pre ++ mid)).receipts k = true := by
        rw [settled, hrow]
        exact hsettled
      simp [exec, claim_settled hset]
    · intro pre c post hcalls hlate
      exact (late_iff hlate).2 (h pre c post hcalls)

def slowReleaseCalls : List (WebhookCall Nat) :=
  [.claim 1 ⟨"p", "POST /event", "e"⟩ 10, .claim 2 ⟨"p", "POST /event", "e"⟩ 311, .release 1 ⟨"p", "POST /event", "e"⟩,
    .claim 3 ⟨"p", "POST /event", "e"⟩ 320]

theorem slow_release_frees_claim : ¬ OneAtATime slowReleaseCalls := by
  intro h
  have hlate := h.late (slowReleaseCalls.take 2) (.release 1 ⟨"p", "POST /event", "e"⟩) (slowReleaseCalls.drop 3) rfl
    (by decide)
  exact absurd (congrArg Keyed.rows hlate) (by decide)

end Webhooks

end Execlaw
