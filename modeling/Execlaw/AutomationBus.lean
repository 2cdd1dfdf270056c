import Execlaw.Calls
import Execlaw.JsonText
import Execlaw.Keyed
import Execlaw.Leases
import Execlaw.Runs
/-!
# AutomationBus — the dispatch leases of bus events (`core/src/automation_bus.rs`)

An event is published once under its id, claimed by a dispatcher for a while, and completed, released for another try,
or dead-lettered when its attempts are spent.  Every outcome names the owner of the lease; `fetch_pending` lists what a
claim would take.  `AutomationBus` runs the store beside the leases its dispatchers hold.
-/
namespace Execlaw

open Table Leases

/-! ## The store -/

inductive BusEventKind | webhookReceived | socketMessage | pluginEmit | routineFired | other

def BusEventKind.asStr : BusEventKind → String
  | .webhookReceived => "webhook.received"
  | .socketMessage => "socket.message"
  | .pluginEmit => "plugin.emit"
  | .routineFired => "routine.fired"
  | .other => "other"

/-- `Event`: what a producer publishes. -/
structure BusEvent (V : Type) where
  id : String
  kind : BusEventKind
  source : String
  receivedAt : Int
  payload : V

structure BusEventRec where
  id : String
  kind : String
  source : String
  receivedAt : Int
  payload : String
  internal : Bool
  dispatchedAt : Option Int
  completedAt : Option Int
  dispatchLeaseOwner : Option String
  dispatchLeaseExpiresAt : Option Int
  dispatchAttempts : Int
  dispatchError : Option String
  deadLetteredAt : Option Int

def BusEventRec.unfinished (r : BusEventRec) : Bool := r.completedAt.isNone && r.deadLetteredAt.isNone

/-- The `WHERE` of a claim: unfinished, and no lease or backoff that has not run out. -/
def BusEventRec.claimable (r : BusEventRec) (now : Int) : Bool :=
  r.unfinished && r.dispatchLeaseExpiresAt.all (fun e => decide (e ≤ now))

structure BusEventRec.Ok (r : BusEventRec) : Prop where
  attempts : 0 ≤ r.dispatchAttempts
  owned : r.dispatchLeaseOwner.isSome = true →
    r.unfinished = true ∧ r.dispatchedAt.isSome = true ∧ r.dispatchLeaseExpiresAt.isSome = true
  dispatched : r.completedAt.isSome = true → r.dispatchedAt.isSome = true

abbrev BusEvents := Keyed BusEventRec.id BusEventRec.Ok

inductive BusEventError
  | db (error : DbError)
  | payload (msg : String)

inductive PublishOutcome | inserted | duplicate

inductive DispatchFailureResult
  | retryScheduled (attempt : Int)
  | deadLettered (attempt : Int)

namespace BusEventStore

abbrev BusChange := Change BusEventRec.id BusEventRec.Ok

def newEvent (id : String) (kind : BusEventKind) (source : String) (receivedAt : Int) (payload : String)
    (internal : Bool) : BusEventRec where
  id := id
  kind := kind.asStr
  source := source
  receivedAt := receivedAt
  payload := payload
  internal := internal
  dispatchedAt := none
  completedAt := none
  dispatchLeaseOwner := none
  dispatchLeaseExpiresAt := none
  dispatchAttempts := 0
  dispatchError := none
  deadLetteredAt := none

theorem newEvent_ok (id : String) (kind : BusEventKind) (source : String) (receivedAt : Int) (payload : String)
    (internal : Bool) : (newEvent id kind source receivedAt payload internal).Ok :=
  ⟨Int.le_refl 0, nofun, nofun⟩

def publish {V : Type} (json : JsonText V) (evt : BusEvent V) (internal : Bool) (t : BusEvents) :
    Except BusEventError PublishOutcome × BusEvents :=
  match json.toString evt.payload with
  | .error e => (.error (.payload e), t)
  | .ok payload =>
    (.ok (if (t.row evt.id).isSome then .duplicate else .inserted),
      t.insertOrIgnore (newEvent evt.id evt.kind evt.source evt.receivedAt payload internal)
        (newEvent_ok evt.id evt.kind evt.source evt.receivedAt payload internal))

def markChange (dispatchedAt : Int) : BusChange where
  takes := fun r => r.dispatchedAt.isNone && r.deadLetteredAt.isNone
  set := fun r => { r with dispatchedAt := some dispatchedAt, completedAt := some dispatchedAt }
  key_set := fun _ => rfl
  keeps_ok := by
    intro r h htakes
    refine ⟨h.attempts, fun howner => ?_, fun _ => rfl⟩
    rw [Bool.and_eq_true, Option.isNone_iff_eq_none] at htakes
    have hdispatched := (h.owned howner).2.1
    rw [htakes.1] at hdispatched
    cases hdispatched

def markDispatched (id : String) (dispatchedAt : Int) (t : BusEvents) : Bool × BusEvents :=
  (t.changed id (markChange dispatchedAt), t.update id (markChange dispatchedAt))

def claimChange (owner : String) (now leaseSeconds : Int) : BusChange where
  takes := fun r => r.claimable now
  set := fun r =>
    { r with
      dispatchedAt := r.dispatchedAt.or (some now), dispatchLeaseOwner := some owner
      dispatchLeaseExpiresAt := some (saturatingAdd now (max leaseSeconds 1)) }
  key_set := fun _ => rfl
  keeps_ok := by
    intro r h htakes
    have hdispatched : (r.dispatchedAt.or (some now)).isSome = true := by
      cases r.dispatchedAt <;> rfl
    exact ⟨h.attempts, fun _ => ⟨(Bool.and_eq_true _ _ ▸ htakes).1, hdispatched, rfl⟩, fun _ => hdispatched⟩

def claimDispatch (id owner : String) (now leaseSeconds : Int) (t : BusEvents) : Bool × BusEvents :=
  (t.changed id (claimChange owner now leaseSeconds), t.update id (claimChange owner now leaseSeconds))

def completeChange (owner : String) (completedAt : Int) : BusChange where
  takes := fun r => r.dispatchLeaseOwner == some owner && r.unfinished
  set := fun r =>
    { r with completedAt := some completedAt, dispatchLeaseOwner := none, dispatchLeaseExpiresAt := none }
  key_set := fun _ => rfl
  keeps_ok := by
    intro r h htakes
    refine ⟨h.attempts, nofun, fun _ => (h.owned ?_).2.1⟩
    rw [Bool.and_eq_true, beq_iff_eq] at htakes
    rw [htakes.1]
    rfl

def completeDispatch (id owner : String) (completedAt : Int) (t : BusEvents) : Bool × BusEvents :=
  (t.changed id (completeChange owner completedAt), t.update id (completeChange owner completedAt))

def releaseChange (owner : String) : BusChange where
  takes := fun r => r.dispatchLeaseOwner == some owner && r.completedAt.isNone
  set := fun r => { r with dispatchLeaseOwner := none, dispatchLeaseExpiresAt := none }
  key_set := fun _ => rfl
  keeps_ok := fun _ h _ => ⟨h.attempts, nofun, h.dispatched⟩

def releaseDispatch (id owner : String) (t : BusEvents) : Bool × BusEvents :=
  (t.changed id (releaseChange owner), t.update id (releaseChange owner))

/-- The two updates of `fail_dispatch`: dead-lettered, or due again at `retry_at`. -/
def failChange (owner : String) (attempt : Int) (hattempt : 0 ≤ attempt) (detail : String)
    (deadLetteredAt retryAt : Option Int) : BusChange where
  takes := fun r => r.dispatchLeaseOwner == some owner && r.unfinished
  set := fun r =>
    { r with
      dispatchAttempts := attempt, dispatchError := some detail, deadLetteredAt := deadLetteredAt
      dispatchLeaseOwner := none, dispatchLeaseExpiresAt := retryAt }
  key_set := fun _ => rfl
  keeps_ok := fun _ h _ => ⟨hattempt, nofun, h.dispatched⟩

def backoff (attempt base : Int) : Int :=
  let shift := max 0 (min (saturatingSub attempt 1) 10)
  min (saturatingMul (max base 1) (2 ^ shift.toNat)) 300

theorem nextAttempt_nonneg {attempts : Int} (h : 0 ≤ attempts) : 0 ≤ saturatingAdd attempts 1 := by
  unfold saturatingAdd
  omega

def failDispatch (id owner error : String) (maxAttempts : UInt32) (backoffBaseSecs now : Int) (t : BusEvents) :
    Except BusEventError DispatchFailureResult × BusEvents :=
  if maxAttempts = 0 then (.error (.db (.invariant "dispatch retry budget must be positive")), t)
  else
    match h : t.row id with
    | none => (.error (.db noRows), t)
    | some r =>
      if r.dispatchLeaseOwner = some owner ∧ r.unfinished = true then
        let attempt := saturatingAdd r.dispatchAttempts 1
        have hattempt : 0 ≤ attempt := nextAttempt_nonneg (Keyed.ok_of_row h).attempts
        let detail := String.ofList (error.toList.take 1024)
        if maxAttempts.toNat ≤ attempt then
          (.ok (.deadLettered attempt), t.update id (failChange owner attempt hattempt detail (some now) none))
        else
          let retryAt := saturatingAdd now (backoff attempt backoffBaseSecs)
          (.ok (.retryScheduled attempt), t.update id (failChange owner attempt hattempt detail none (some retryAt)))
      else (.error (.db noRows), t)

/-- `fetch_pending`; `now` is `strftime('%s','now')`. -/
def fetchPending (internalOnly : Bool) (bound now : Int) (t : BusEvents) : List String :=
  (limit bound (orderBy BusEventRec.receivedAt
    (t.rows.filter (fun r => (!internalOnly || r.internal) && r.claimable now)))).map BusEventRec.id

def purgeDispatchedOlderThan (cutoffUnix : Int) (t : BusEvents) : Nat × BusEvents :=
  let purged := fun r : BusEventRec => r.completedAt.isSome && decide (r.receivedAt < cutoffUnix)
  (t.rows.countP purged, t.removeAll purged)

/-! ## What they do -/

variable {r : BusEventRec}

theorem unfinished_of_owner {t : BusEvents} {id owner : String} (hr : t.row id = some r)
    (howner : r.dispatchLeaseOwner = some owner) : r.unfinished = true :=
  ((Keyed.ok_of_row hr).owned (by rw [howner]; rfl)).1

theorem unowned_of_not_dispatched (hok : r.Ok) (hd : r.dispatchedAt = none) (hdead : r.deadLetteredAt = none) :
    r.unfinished = true ∧ r.dispatchLeaseOwner = none := by
  constructor
  · cases hc : r.completedAt with
    | none =>
      rw [BusEventRec.unfinished, hc, hdead]
      rfl
    | some completedAt =>
      have hdispatched := hok.dispatched (by rw [hc]; rfl)
      rw [hd] at hdispatched
      cases hdispatched
  · cases ho : r.dispatchLeaseOwner with
    | none => rfl
    | some owner =>
      have hdispatched := (hok.owned (by rw [ho]; rfl)).2.1
      rw [hd] at hdispatched
      cases hdispatched

theorem unowned_of_completed (hok : r.Ok) (h : r.completedAt.isSome = true) : r.dispatchLeaseOwner = none := by
  cases ho : r.dispatchLeaseOwner with
  | none => rfl
  | some owner =>
    have hunfinished := (hok.owned (by rw [ho]; rfl)).1
    rw [BusEventRec.unfinished, Bool.and_eq_true, Option.isNone_iff_eq_none] at hunfinished
    rw [hunfinished.1] at h
    cases h

theorem publish_cases {V : Type} (json : JsonText V) (evt : BusEvent V) (internal : Bool) (t : BusEvents) :
    (∃ e, publish json evt internal t = (.error e, t)) ∨ publish json evt internal t = (.ok .duplicate, t) ∨
      (t.row evt.id = none ∧ ∃ payload t', publish json evt internal t = (.ok .inserted, t') ∧ ∀ j, t'.row j =
        (t.row j).or
          (if evt.id = j then some (newEvent evt.id evt.kind evt.source evt.receivedAt payload internal) else none)) := by
  unfold publish
  cases json.toString evt.payload with
  | error e => exact .inl ⟨_, rfl⟩
  | ok payload =>
    cases hrow : t.row evt.id with
    | some r =>
      refine .inr (.inl ?_)
      dsimp only
      rw [Keyed.insertOrIgnore_of_isSome _ (by simp [newEvent, hrow])]
      rfl
    | none => exact .inr (.inr ⟨rfl, payload, _, rfl, Keyed.row_insertOrIgnore _⟩)

theorem failDispatch_cases (id owner error : String) (maxAttempts : UInt32) (base now : Int) (t : BusEvents) :
    (∃ e, failDispatch id owner error maxAttempts base now t = (.error e, t)) ∨
      (maxAttempts ≠ 0 ∧ ∃ r r' result t', t.row id = some r ∧ r.dispatchLeaseOwner = some owner ∧
        failDispatch id owner error maxAttempts base now t = (.ok result, t') ∧ t'.row id = some r' ∧
        (∀ j, j ≠ id → t'.row j = t.row j) ∧ r'.dispatchLeaseOwner = none ∧
        r'.dispatchAttempts = saturatingAdd r.dispatchAttempts 1 ∧
        (r'.deadLetteredAt.isSome = true ↔ maxAttempts.toNat ≤ saturatingAdd r.dispatchAttempts 1)) := by
  unfold failDispatch
  split
  · exact .inl ⟨_, rfl⟩
  next hpositive =>
  split
  · exact .inl ⟨_, rfl⟩
  next r hr =>
  split
  swap
  · exact .inl ⟨_, rfl⟩
  next howner =>
  have htakes : (r.dispatchLeaseOwner == some owner && r.unfinished) = true := by
    rw [howner.1, howner.2, beq_self_eq_true]
    rfl
  refine .inr ⟨hpositive, r, ?_⟩
  dsimp only
  split
  · next hmax =>
    exact ⟨_, _, _, hr, howner.1, rfl, Keyed.row_update_of_changed hr htakes,
      fun j hj => Keyed.row_update_of_ne t hj _, rfl, rfl, iff_of_true rfl hmax⟩
  · next hmax =>
    exact ⟨_, _, _, hr, howner.1, rfl, Keyed.row_update_of_changed hr htakes,
      fun j hj => Keyed.row_update_of_ne t hj _, rfl, rfl, iff_of_false nofun hmax⟩

end BusEventStore

end Execlaw
