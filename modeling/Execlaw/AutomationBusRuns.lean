import Execlaw.AutomationBus
/-!
# AutomationBusRuns — what holds of every run of the bus

Dispatchers, producers and the retention sweep call the store in any order, with any clocks.  A lease is the row's own:
its owner and its end; so two dispatchers never hold one event, and an outcome of another owner finds nothing to change.
An event is one publication: an id that was purged may be published anew.
-/
namespace Execlaw

open Table Leases

inductive BusCall (V : Type)
  | publish (evt : BusEvent V) (internal : Bool)
  | markDispatched (id : String) (dispatchedAt : Int)
  | claimDispatch (id owner : String) (now leaseSeconds : Int)
  | completeDispatch (id owner : String) (completedAt : Int)
  | releaseDispatch (id owner : String)
  | failDispatch (id owner error : String) (maxAttempts : UInt32) (backoffBaseSecs now : Int)
  | fetchPending (internalOnly : Bool) (bound now : Int)
  | purge (cutoffUnix : Int)

def BusCall.outcome {V : Type} : BusCall V → Option (String × String)
  | .completeDispatch id owner _ => some (id, owner)
  | .releaseDispatch id owner => some (id, owner)
  | .failDispatch id owner .. => some (id, owner)
  | .publish .. | .markDispatched .. | .claimDispatch .. | .fetchPending .. | .purge .. => none

inductive BusReply
  | published (outcome : PublishOutcome)
  | took (took : Bool)
  | failed (result : DispatchFailureResult)
  | pending (ids : List String)
  | purged (count : Nat)

structure Publication where
  id : String
  nth : Nat
deriving DecidableEq

structure AutomationBus where
  events : BusEvents
  held : List (Lease String String)
  published : List String
  failures : List Publication

namespace AutomationBus

open BusEventStore

variable {V : Type} (json : JsonText V)

def empty : AutomationBus := ⟨.empty, [], [], []⟩

def current (s : AutomationBus) (id : String) : Publication := ⟨id, s.published.count id⟩

def rowOf (s : AutomationBus) (e : Publication) : Option BusEventRec :=
  if s.current e.id = e then s.events.row e.id else none

/-- **One call**: a dispatcher holds the lease a claim granted until its outcome is taken.  Owner names are distinct
per claim, so an owner is one dispatcher. -/
def exec (s : AutomationBus) : BusCall V → Except BusEventError BusReply × AutomationBus
  | .publish evt internal =>
    match BusEventStore.publish json evt internal s.events with
    | (.error e, t) => (.error e, { s with events := t })
    | (.ok .duplicate, t) => (.ok (.published .duplicate), { s with events := t })
    | (.ok .inserted, t) =>
      (.ok (.published .inserted), { s with events := t, published := s.published ++ [evt.id] })
  | .markDispatched id dispatchedAt =>
    let (took, t) := markDispatched id dispatchedAt s.events
    (.ok (.took took), { s with events := t })
  | .claimDispatch id owner now leaseSeconds =>
    let (took, t) := claimDispatch id owner now leaseSeconds s.events
    let lease := ⟨id, owner, now, saturatingAdd now (max leaseSeconds 1)⟩
    (.ok (.took took), { s with events := t, held := if took then grant lease s.held else s.held })
  | .completeDispatch id owner completedAt =>
    let (took, t) := completeDispatch id owner completedAt s.events
    (.ok (.took took), { s with events := t, held := if took then giveUp id owner s.held else s.held })
  | .releaseDispatch id owner =>
    let (took, t) := releaseDispatch id owner s.events
    (.ok (.took took), { s with events := t, held := if took then giveUp id owner s.held else s.held })
  | .failDispatch id owner error maxAttempts backoffBaseSecs now =>
    match failDispatch id owner error maxAttempts backoffBaseSecs now s.events with
    | (.error e, t) => (.error e, { s with events := t })
    | (.ok result, t) =>
      (.ok (.failed result),
        { s with events := t, held := giveUp id owner s.held, failures := s.failures ++ [s.current id] })
  | .fetchPending internalOnly bound now => (.ok (.pending (fetchPending internalOnly bound now s.events)), s)
  | .purge cutoffUnix =>
    let (count, t) := purgeDispatchedOlderThan cutoffUnix s.events
    (.ok (.purged count), { s with events := t })

def run (calls : List (BusCall V)) : AutomationBus := Calls.after (exec json) .empty calls

/-! ## What holds of every run -/

def holds (s : AutomationBus) (id owner : String) : Bool :=
  s.held.any (fun l => decide (l.key = id) && decide (l.holder = owner))

def late (s : AutomationBus) (c : BusCall V) : Bool := c.outcome.any (fun o => !s.holds o.1 o.2)

def pending (s : AutomationBus) (e : Publication) : Bool := (s.rowOf e).any BusEventRec.unfinished

def finished (s : AutomationBus) (e : Publication) : Bool := (s.rowOf e).any (fun r => !r.unfinished)

def FixedBudget (calls : List (BusCall V)) (id : String) (maxAttempts : UInt32) : Prop :=
  ∀ owner error m base now, .failDispatch id owner error m base now ∈ calls → m = maxAttempts

def Accepted (t : BusEvents) (now : Int) (id : String) : Prop :=
  ∀ owner leaseSeconds, (claimDispatch id owner now leaseSeconds t).1 = true

/-- **The listing is what a claim accepts**, all of it where the bound is not reached. -/
structure Lists (t : BusEvents) (internalOnly : Bool) (bound now : Int) : Prop where
  sound : ∀ id ∈ fetchPending internalOnly bound now t,
    Accepted t now id ∧ (internalOnly = true → (t.row id).any BusEventRec.internal = true)
  complete : ∀ id, Accepted t now id → (internalOnly = true → (t.row id).any BusEventRec.internal = true) →
    id ∉ fetchPending internalOnly bound now t →
      0 ≤ bound ∧ (fetchPending internalOnly bound now t).length = bound.toNat

/-- **The bus is safe**: one unexpired lease an event, no effect of an outcome without its lease, no way back from
completed or dead-lettered, dead-lettered by the last failure of the budget, listed exactly what is claimable, and
nothing unfinished purged. -/
structure Safe (calls : List (BusCall V)) : Prop where
  exclusive : ∀ pre post, calls = pre ++ post → Exclusive (run json pre).held
  fenced : ∀ pre c post, calls = pre ++ c :: post → (run json pre).late c = true →
    (exec json (run json pre) c).2.events = (run json pre).events
  final : ∀ pre mid post, calls = pre ++ mid ++ post → ∀ e, (run json pre).finished e = true →
    (run json (pre ++ mid)).pending e = false
  deadLettered : ∀ pre post, calls = pre ++ post → ∀ e maxAttempts, FixedBudget pre e.id maxAttempts →
    ∀ r, (run json pre).rowOf e = some r →
      (r.deadLetteredAt.isSome = true ↔
        maxAttempts ≠ 0 ∧ (run json pre).failures.count e = maxAttempts.toNat) ∧
      (run json pre).failures.count e ≤ maxAttempts.toNat
  listed : ∀ pre post, calls = pre ++ post → ∀ internalOnly bound now,
    Lists (run json pre).events internalOnly bound now
  purged : ∀ pre post, calls = pre ++ post → ∀ cutoffUnix id r, (run json pre).events.row id = some r →
    r.unfinished = true → (purgeDispatchedOlderThan cutoffUnix (run json pre).events).2.row id = some r

/-! ## What a call does -/

structure Moves (t t' : BusEvents) (id : String) (r r' : BusEventRec) : Prop where
  before : t.row id = some r
  unfinished : r.unfinished = true
  after : t'.row id = some r'
  frame : ∀ j, j ≠ id → t'.row j = t.row j

def SameBudget (r r' : BusEventRec) : Prop :=
  r'.dispatchAttempts = r.dispatchAttempts ∧ r'.deadLetteredAt = r.deadLetteredAt

/-- **What a call does** to the bus. -/
inductive Effect (s : AutomationBus) (c : BusCall V) : AutomationBus → Prop
  | same : Effect s c s
  | published {row : BusEventRec} {t : BusEvents} (call : c.outcome = none) (fresh : s.events.row row.id = none)
      (new : row.dispatchLeaseOwner = none ∧ row.dispatchAttempts = 0 ∧ row.deadLetteredAt = none)
      (rows : ∀ j, t.row j = (s.events.row j).or (if row.id = j then some row else none)) :
      Effect s c { s with events := t, published := s.published ++ [row.id] }
  | marked {id : String} {r r' : BusEventRec} {t : BusEvents} (call : c.outcome = none)
      (moves : Moves s.events t id r r') (unowned : r.dispatchLeaseOwner = none ∧ r'.dispatchLeaseOwner = none)
      (budget : SameBudget r r') : Effect s c { s with events := t }
  | granted {id owner : String} {now expires : Int} {r r' : BusEventRec} {t : BusEvents} (call : c.outcome = none)
      (moves : Moves s.events t id r r') (claimable : r.claimable now = true)
      (lease : r'.dispatchLeaseOwner = some owner ∧ r'.dispatchLeaseExpiresAt = some expires)
      (budget : SameBudget r r') :
      Effect s c { s with events := t, held := grant ⟨id, owner, now, expires⟩ s.held }
  | settled {id owner : String} {r r' : BusEventRec} {t : BusEvents} (call : c.outcome = some (id, owner))
      (moves : Moves s.events t id r r')
      (owned : r.dispatchLeaseOwner = some owner ∧ r'.dispatchLeaseOwner = none) (budget : SameBudget r r') :
      Effect s c { s with events := t, held := giveUp id owner s.held }
  | failed {id owner error : String} {maxAttempts : UInt32} {base now : Int} {r r' : BusEventRec} {t : BusEvents}
      (call : c = .failDispatch id owner error maxAttempts base now) (moves : Moves s.events t id r r')
      (owned : r.dispatchLeaseOwner = some owner ∧ r'.dispatchLeaseOwner = none) (positive : maxAttempts ≠ 0)
      (attempt : r'.dispatchAttempts = saturatingAdd r.dispatchAttempts 1)
      (dead : r'.deadLetteredAt.isSome = true ↔ maxAttempts.toNat ≤ saturatingAdd r.dispatchAttempts 1) :
      Effect s c
        { s with events := t, held := giveUp id owner s.held, failures := s.failures ++ [s.current id] }
  | purged {p : BusEventRec → Bool} {t : BusEvents} (call : c.outcome = none)
      (completed : ∀ r, p r = true → r.completedAt.isSome = true)
      (rows : ∀ j, t.row j = (s.events.row j).filter (fun r => !p r)) : Effect s c { s with events := t }

section Effects

variable {json} {s : AutomationBus}

theorem settle_effect {c : BusCall V} {id owner : String} (hcall : c.outcome = some (id, owner)) (change : BusChange)
    (htakes : ∀ r, change.takes r = true → r.dispatchLeaseOwner = some owner)
    (hset : ∀ r, (change.set r).dispatchLeaseOwner = none ∧ SameBudget r (change.set r)) :
    Effect s c { s with
      events := s.events.update id change
      held := if s.events.changed id change then giveUp id owner s.held else s.held } := by
  rcases Keyed.update_cases s.events id change with ⟨hno, hsame⟩ | ⟨r, hr, ht, hyes, hrow, hframe⟩
  · rw [hno, hsame]
    exact .same
  · rw [hyes]
    have howner := htakes r ht
    exact .settled hcall ⟨hr, unfinished_of_owner hr howner, hrow, hframe⟩ ⟨howner, (hset r).1⟩ (hset r).2

theorem exec_effect (c : BusCall V) : Effect s c (exec json s c).2 := by
  cases c with
  | publish evt internal =>
    rcases publish_cases json evt internal s.events with ⟨e, h⟩ | h | ⟨hfresh, payload, t, h, hrows⟩
    · simp only [exec, h]
      exact .same
    · simp only [exec, h]
      exact .same
    · simp only [exec, h]
      exact @Effect.published V s (.publish evt internal)
        (newEvent evt.id evt.kind evt.source evt.receivedAt payload internal) t rfl hfresh ⟨rfl, rfl, rfl⟩ hrows
  | markDispatched id dispatchedAt =>
    rcases Keyed.update_cases s.events id (markChange dispatchedAt) with
      ⟨-, hsame⟩ | ⟨r, hr, htakes, -, hrow, hframe⟩
    · simp only [exec, markDispatched, hsame]
      exact .same
    · simp only [markChange, Bool.and_eq_true, Option.isNone_iff_eq_none] at htakes
      obtain ⟨hunfinished, howner⟩ := unowned_of_not_dispatched (Keyed.ok_of_row hr) htakes.1 htakes.2
      exact .marked rfl ⟨hr, hunfinished, hrow, hframe⟩ ⟨howner, howner⟩ ⟨rfl, rfl⟩
  | claimDispatch id owner now leaseSeconds =>
    rcases Keyed.update_cases s.events id (claimChange owner now leaseSeconds) with
      ⟨hno, hsame⟩ | ⟨r, hr, htakes, hyes, hrow, hframe⟩
    · simp only [exec, claimDispatch, hsame, hno]
      exact .same
    · simp only [exec, claimDispatch, hyes]
      have hclaimable : r.claimable now = true := htakes
      exact .granted rfl ⟨hr, (Bool.and_eq_true _ _ ▸ htakes).1, hrow, hframe⟩ hclaimable ⟨rfl, rfl⟩ ⟨rfl, rfl⟩
  | completeDispatch id owner completedAt =>
    refine settle_effect rfl (completeChange owner completedAt) (fun r htakes => ?_) fun r => ⟨rfl, rfl, rfl⟩
    rw [completeChange, Bool.and_eq_true, beq_iff_eq] at htakes
    exact htakes.1
  | releaseDispatch id owner =>
    refine settle_effect rfl (releaseChange owner) (fun r htakes => ?_) fun r => ⟨rfl, rfl, rfl⟩
    rw [releaseChange, Bool.and_eq_true, beq_iff_eq] at htakes
    exact htakes.1
  | failDispatch id owner error maxAttempts base now =>
    rcases failDispatch_cases id owner error maxAttempts base now s.events with
      ⟨e, h⟩ | ⟨hpositive, r, r', result, t, hr, howner, h, hrow, hframe, hnone, hattempt, hdead⟩
    · simp only [exec, h]
      exact .same
    · simp only [exec, h]
      exact .failed rfl ⟨hr, unfinished_of_owner hr howner, hrow, hframe⟩ ⟨howner, hnone⟩ hpositive hattempt hdead
  | fetchPending internalOnly bound now => exact .same
  | purge cutoffUnix =>
    refine .purged rfl (p := fun r => r.completedAt.isSome && decide (r.receivedAt < cutoffUnix)) ?_
      fun j => Keyed.row_removeAll
    intro r hr
    exact (Bool.and_eq_true _ _ ▸ hr).1

end Effects

section Owned

def ownerOf (t : BusEvents) (id : String) : Option String := (t.row id).bind BusEventRec.dispatchLeaseOwner

def leaseOn (t : BusEvents) (id : String) : Option Int :=
  (t.row id).bind fun r => if r.dispatchLeaseOwner.isSome then r.dispatchLeaseExpiresAt else none

/-- **The leases held are those of the rows**, each with its owner. -/
structure Owned (s : AutomationBus) : Prop where
  recorded : Recorded (leaseOn s.events) s.held
  owner : ∀ id owner, ownerOf s.events id = some owner ↔ ∃ l ∈ s.held, l.key = id ∧ l.holder = owner

theorem owned_empty : Owned empty := ⟨recorded_nil, fun id owner => by simp [ownerOf, empty]⟩

variable {s : AutomationBus} {t : BusEvents}

theorem ownerOf_row {id : String} {r : BusEventRec} (h : t.row id = some r) : ownerOf t id = r.dispatchLeaseOwner := by
  rw [ownerOf, h, Option.bind_some]

theorem leaseOn_row {id : String} {r : BusEventRec} (h : t.row id = some r) :
    leaseOn t id = if r.dispatchLeaseOwner.isSome then r.dispatchLeaseExpiresAt else none := by
  rw [leaseOn, h, Option.bind_some]

variable {id owner : String}

theorem holds_eq_true : s.holds id owner = true ↔ ∃ l ∈ s.held, l.key = id ∧ l.holder = owner := by
  simp [holds]

theorem owned_of_unowned {s' : AutomationBus} (h : Owned s) (hheld : s'.held = s.held)
    (hrows : ∀ id, s'.events.row id = s.events.row id ∨
      (∀ r, s.events.row id = some r → r.dispatchLeaseOwner = none) ∧
        ∀ r, s'.events.row id = some r → r.dispatchLeaseOwner = none) : Owned s' := by
  have hunowned : ∀ {u : BusEvents} {id : String}, (∀ r, u.row id = some r → r.dispatchLeaseOwner = none) →
      ownerOf u id = none ∧ leaseOn u id = none := by
    intro u id hu
    cases hrow : u.row id with
    | none => simp [ownerOf, leaseOn, hrow]
    | some r => simp [ownerOf, leaseOn, hrow, hu r hrow]
  constructor
  · rw [hheld]
    refine h.recorded.of_eq fun l _ => ?_
    rcases hrows l.key with heq | ⟨hbefore, hafter⟩
    · rw [leaseOn, leaseOn, heq]
    · rw [(hunowned hbefore).2, (hunowned hafter).2]
  · intro id owner
    rw [hheld, ← h.owner id owner]
    rcases hrows id with heq | ⟨hbefore, hafter⟩
    · rw [ownerOf, ownerOf, heq]
    · rw [(hunowned hbefore).1, (hunowned hafter).1]

theorem owned_granted (h : Owned s) {now expires : Int} {r r' : BusEventRec} (hm : Moves s.events t id r r')
    (hclaimable : r.claimable now = true)
    (hlease : r'.dispatchLeaseOwner = some owner ∧ r'.dispatchLeaseExpiresAt = some expires) :
    Owned { s with events := t, held := grant ⟨id, owner, now, expires⟩ s.held } := by
  have hrec : Recorded (leaseOn t) (grant ⟨id, owner, now, expires⟩ s.held) := by
    refine h.recorded.grant (fun e he => ?_) ?_ fun j hj => ?_
    · rw [leaseOn_row hm.before] at he
      split at he
      · rw [BusEventRec.claimable, he] at hclaimable
        exact of_decide_eq_true (Bool.and_eq_true _ _ ▸ hclaimable).2
      · cases he
    · rw [leaseOn_row hm.after, hlease.1, hlease.2]
      rfl
    · rw [leaseOn, leaseOn, hm.frame j hj]
  have hnew : (⟨id, owner, now, expires⟩ : Lease String String) ∈ grant ⟨id, owner, now, expires⟩ s.held :=
    mem_grant.2 (.inr rfl)
  refine ⟨hrec, fun j o => ?_⟩
  by_cases hj : j = id
  · subst hj
    rw [ownerOf_row hm.after, hlease.1]
    constructor
    · intro ho
      exact ⟨_, hnew, rfl, Option.some.inj ho⟩
    · rintro ⟨l, hl, hlk, rfl⟩
      rw [hrec.eq_of_key hl hnew hlk]
  · have hframe : ownerOf t j = ownerOf s.events j := by rw [ownerOf, ownerOf, hm.frame j hj]
    rw [hframe, h.owner j o]
    constructor
    · rintro ⟨l, hl, rfl, ho⟩
      exact ⟨l, mem_grant.2 (.inl ⟨hl, fun hk => absurd hk hj⟩), rfl, ho⟩
    · rintro ⟨l, hl, rfl, ho⟩
      rcases mem_grant.1 hl with ⟨hl, -⟩ | rfl
      · exact ⟨l, hl, rfl, ho⟩
      · exact absurd rfl hj

theorem owned_settled (h : Owned s) {r r' : BusEventRec} (hm : Moves s.events t id r r')
    (howner : r.dispatchLeaseOwner = some owner ∧ r'.dispatchLeaseOwner = none) (failures : List Publication) :
    Owned { s with events := t, held := giveUp id owner s.held, failures := failures } := by
  have hheld : ∀ l ∈ s.held, l.key = id → l.holder = owner := by
    intro l hl hlk
    have hl' := (h.owner id l.holder).2 ⟨l, hl, hlk, rfl⟩
    rw [ownerOf_row hm.before, howner.1] at hl'
    exact (Option.some.inj hl').symm
  refine ⟨h.recorded.giveUp hheld fun j hj => by rw [leaseOn, leaseOn, hm.frame j hj], fun j o => ?_⟩
  by_cases hj : j = id
  · subst hj
    rw [ownerOf_row hm.after, howner.2]
    refine iff_of_false nofun ?_
    rintro ⟨l, hl, hlk, -⟩
    obtain ⟨hl, hother⟩ := mem_giveUp.1 hl
    exact hother hlk (hheld l hl hlk)
  · have hframe : ownerOf t j = ownerOf s.events j := by rw [ownerOf, ownerOf, hm.frame j hj]
    rw [hframe, h.owner j o]
    constructor
    · rintro ⟨l, hl, rfl, ho⟩
      exact ⟨l, mem_giveUp.2 ⟨hl, fun hk => absurd hk hj⟩, rfl, ho⟩
    · rintro ⟨l, hl, rfl, ho⟩
      exact ⟨l, (mem_giveUp.1 hl).1, rfl, ho⟩

theorem owned_step {c : BusCall V} {s' : AutomationBus} (h : Owned s) (heffect : Effect s c s') : Owned s' := by
  cases heffect with
  | same => exact h
  | @published row t _ hfresh hnew hrows =>
    refine owned_of_unowned h rfl fun j => ?_
    by_cases hj : row.id = j
    · subst hj
      refine .inr ⟨fun r hr => ?_, fun r hr => ?_⟩
      · rw [hfresh] at hr
        cases hr
      · rw [hrows, hfresh, if_pos rfl] at hr
        cases hr
        exact hnew.1
    · exact .inl (by rw [hrows, if_neg hj, Option.or_none])
  | @marked id r r' t _ hm howner _ =>
    refine owned_of_unowned h rfl fun j => ?_
    by_cases hj : j = id
    · subst hj
      refine .inr ⟨fun q hq => ?_, fun q hq => ?_⟩
      · cases hm.before.symm.trans hq
        exact howner.1
      · cases hm.after.symm.trans hq
        exact howner.2
    · exact .inl (hm.frame j hj)
  | granted _ hm hclaimable hlease _ => exact owned_granted h hm hclaimable hlease
  | settled _ hm howner _ => exact owned_settled h hm howner s.failures
  | failed _ hm howner _ _ _ => exact owned_settled h hm howner _
  | @purged p t _ hcompleted hrows =>
    refine owned_of_unowned h rfl fun j => ?_
    cases hrow : s.events.row j with
    | none => exact .inl (by rw [hrows, hrow]; rfl)
    | some r =>
      cases hp : p r with
      | false => exact .inl (by rw [hrows, hrow, Option.filter, hp]; rfl)
      | true =>
        have hunowned := unowned_of_completed (Keyed.ok_of_row hrow) (hcompleted r hp)
        refine .inr ⟨fun q hq => ?_, fun q hq => ?_⟩
        · cases hq
          exact hunowned
        · rw [hrows, hrow, Option.filter, hp] at hq
          cases hq

theorem events_of_late {c : BusCall V} {s' : AutomationBus} (h : Owned s) (hlate : s.late c = true)
    (heffect : Effect s c s') : s'.events = s.events := by
  have hnot : ∀ id owner r, c.outcome = some (id, owner) → s.events.row id = some r →
      r.dispatchLeaseOwner = some owner → False := by
    intro id owner r hcall hr howner
    have hholds := holds_eq_true.2 ((h.owner id owner).1 (by rw [ownerOf_row hr, howner]))
    rw [late, hcall, Option.any_some, hholds] at hlate
    cases hlate
  have houtcome : c.outcome ≠ none := by
    intro hcall
    rw [late, hcall] at hlate
    cases hlate
  cases heffect with
  | same => rfl
  | published hcall _ _ _ | marked hcall _ _ _ | granted hcall _ _ _ _ => exact absurd hcall houtcome
  | settled hcall hm howner _ => exact (hnot _ _ _ hcall hm.before howner.1).elim
  | @failed id owner error m base now r r' t hcall hm howner _ _ _ =>
    exact (hnot id owner r (by rw [hcall]; rfl) hm.before howner.1).elim
  | purged hcall _ _ => exact absurd hcall houtcome

end Owned

/-! ## Finished events -/

section Finished

variable {s : AutomationBus}

theorem rowOf_iff {e : Publication} {r : BusEventRec} :
    s.rowOf e = some r ↔ s.published.count e.id = e.nth ∧ s.events.row e.id = some r := by
  have hcurrent : s.current e.id = e ↔ s.published.count e.id = e.nth := by
    obtain ⟨id, nth⟩ := e
    simp [current]
  unfold rowOf
  split
  · next h => simp [hcurrent.1 h]
  · next h =>
    have hne : s.published.count e.id ≠ e.nth := fun hc => h (hcurrent.2 hc)
    simp [hne]

def Gone (e : Publication) (s : AutomationBus) : Prop :=
  e.nth < s.published.count e.id ∨ s.published.count e.id = e.nth ∧ s.events.row e.id = none

def Finished (e : Publication) (r : BusEventRec) (s : AutomationBus) : Prop := s.rowOf e = some r ∨ Gone e s

theorem finished_of_row {e : Publication} {r : BusEventRec} {s' : AutomationBus} (h : Finished e r s)
    (hpublished : s'.published = s.published)
    (hrow : s.events.row e.id = some r → s'.events.row e.id = some r ∨ s'.events.row e.id = none)
    (hnone : s.events.row e.id = none → s'.events.row e.id = none) : Finished e r s' := by
  rcases h with h | h | ⟨hcount, hrow'⟩
  · obtain ⟨hcount, hr⟩ := rowOf_iff.1 h
    rcases hrow hr with h' | h'
    · exact .inl (rowOf_iff.2 ⟨by rw [hpublished, hcount], h'⟩)
    · exact .inr (.inr ⟨by rw [hpublished, hcount], h'⟩)
  · exact .inr (.inl (by rw [hpublished]; exact h))
  · exact .inr (.inr ⟨by rw [hpublished, hcount], hnone hrow'⟩)

theorem finished_of_moves {e : Publication} {r : BusEventRec} {s' : AutomationBus} (h : Finished e r s)
    (hr : r.unfinished = false) (hpublished : s'.published = s.published) {id : String} {q q' : BusEventRec}
    (hm : Moves s.events s'.events id q q') : Finished e r s' := by
  refine finished_of_row h hpublished (fun hrow => .inl ?_) fun hrow => ?_
  · have hne : e.id ≠ id := by
      intro heq
      cases hrow.symm.trans (heq ▸ hm.before)
      rw [hm.unfinished] at hr
      cases hr
    rw [hm.frame e.id hne, hrow]
  · have hne : e.id ≠ id := by
      intro heq
      rw [heq, hm.before] at hrow
      cases hrow
    rw [hm.frame e.id hne, hrow]

theorem finished_step {c : BusCall V} {e : Publication} {r : BusEventRec} {s' : AutomationBus} (h : Finished e r s)
    (hr : r.unfinished = false) (heffect : Effect s c s') : Finished e r s' := by
  cases heffect with
  | same => exact h
  | @published row t _ hfresh hnew hrows =>
    have hcount : (s.published ++ [row.id]).count e.id = s.published.count e.id + if row.id = e.id then 1 else 0 := by
      rw [List.count_append, List.count_singleton]
      simp
    by_cases hid : row.id = e.id
    · refine .inr (.inl ?_)
      rw [hcount, if_pos hid]
      rcases h with h | h | ⟨h, -⟩
      · rw [← (rowOf_iff.1 h).1]
        exact Nat.lt_succ_self _
      · exact Nat.lt_succ_of_lt h
      · rw [← h]
        exact Nat.lt_succ_self _
    · rw [if_neg hid, Nat.add_zero] at hcount
      have hrow : t.row e.id = s.events.row e.id := by rw [hrows, if_neg hid, Option.or_none]
      rcases h with h | h | ⟨h, hnone⟩
      · obtain ⟨hnth, hself⟩ := rowOf_iff.1 h
        exact .inl (rowOf_iff.2 ⟨hcount.trans hnth, hrow.trans hself⟩)
      · exact .inr (.inl (hcount ▸ h))
      · exact .inr (.inr ⟨hcount.trans h, hrow.trans hnone⟩)
  | marked _ hm _ _ | granted _ hm _ _ _ | settled _ hm _ _ => exact finished_of_moves h hr rfl hm
  | failed _ hm _ _ _ _ => exact finished_of_moves h hr rfl hm
  | @purged p t _ _ hrows =>
    refine finished_of_row h rfl (fun hrow => ?_) fun hrow => by rw [hrows, hrow]; rfl
    cases hp : p r with
    | false => exact .inl (by rw [hrows, hrow, Option.filter, hp]; rfl)
    | true => exact .inr (by rw [hrows, hrow, Option.filter, hp]; rfl)

theorem not_pending_of_finished {e : Publication} {r : BusEventRec} (h : Finished e r s) (hr : r.unfinished = false) :
    s.pending e = false := by
  cases hrow : s.rowOf e with
  | none => simp [pending, hrow]
  | some q =>
    rcases h with h | h | ⟨-, hnone⟩
    · cases hrow.symm.trans h
      simp [pending, hrow, hr]
    · exact absurd (rowOf_iff.1 hrow).1 (Nat.ne_of_gt h)
    · rw [(rowOf_iff.1 hrow).2] at hnone
      cases hnone

end Finished

/-! ## Failures -/

section Budget

variable {s : AutomationBus}

/-- **The failures of an event** are counted on its row, and end it at the budget. -/
structure Budgeted (id : String) (maxAttempts : UInt32) (s : AutomationBus) : Prop where
  later : ∀ n, s.published.count id < n → s.failures.count ⟨id, n⟩ = 0
  row : ∀ r, s.events.row id = some r →
    r.dispatchAttempts = s.failures.count (s.current id) ∧
      (r.deadLetteredAt.isSome = true ↔ maxAttempts ≠ 0 ∧ s.failures.count (s.current id) = maxAttempts.toNat) ∧
      s.failures.count (s.current id) ≤ maxAttempts.toNat

theorem budgeted_empty (id : String) (maxAttempts : UInt32) : Budgeted id maxAttempts empty := by
  refine ⟨fun _ _ => rfl, fun r hr => ?_⟩
  rw [empty, Keyed.row_empty] at hr
  cases hr

variable {maxAttempts : UInt32} {s' : AutomationBus} {id : String}

theorem budgeted_of_same (h : Budgeted id maxAttempts s) (hpublished : s'.published = s.published)
    (hfailures : s'.failures = s.failures)
    (hrow : ∀ r', s'.events.row id = some r' → ∃ r, s.events.row id = some r ∧ SameBudget r r') :
    Budgeted id maxAttempts s' := by
  refine ⟨by rw [hpublished, hfailures]; exact h.later, fun r' hr' => ?_⟩
  obtain ⟨r, hr, hattempts, hdead⟩ := hrow r' hr'
  rw [current, hpublished, hfailures, hattempts, hdead]
  exact h.row r hr

theorem budgeted_of_moves (h : Budgeted id maxAttempts s) (hpublished : s'.published = s.published)
    (hfailures : s'.failures = s.failures) {j : String} {q q' : BusEventRec} (hm : Moves s.events s'.events j q q')
    (hsame : SameBudget q q') : Budgeted id maxAttempts s' := by
  refine budgeted_of_same h hpublished hfailures fun r' hr' => ?_
  by_cases hj : id = j
  · subst hj
    cases hm.after.symm.trans hr'
    exact ⟨q, hm.before, hsame⟩
  · exact ⟨r', by rw [← hm.frame id hj, hr'], rfl, rfl⟩

theorem budgeted_failed (h : Budgeted id maxAttempts s) {r r' : BusEventRec} {t : BusEvents}
    {held : List (Lease String String)} (hm : Moves s.events t id r r') (hpositive : maxAttempts ≠ 0)
    (hattempt : r'.dispatchAttempts = saturatingAdd r.dispatchAttempts 1)
    (hdead : r'.deadLetteredAt.isSome = true ↔ maxAttempts.toNat ≤ saturatingAdd r.dispatchAttempts 1) :
    Budgeted id maxAttempts
      { s with events := t, held := held, failures := s.failures ++ [s.current id] } := by
  obtain ⟨hattempts, hended, hle⟩ := h.row r hm.before
  have hopen : s.failures.count (s.current id) ≠ maxAttempts.toNat := by
    intro hmax
    have hisSome := hended.2 ⟨hpositive, hmax⟩
    have hunfinished := hm.unfinished
    rw [BusEventRec.unfinished, Bool.and_eq_true, Option.isNone_iff_eq_none, Option.isNone_iff_eq_none] at hunfinished
    rw [hunfinished.2] at hisSome
    cases hisSome
  have hbound : maxAttempts.toNat < 2 ^ 32 := maxAttempts.toNat_lt
  -- The budget is a `u32`: the attempts never reach where `i64` saturates.
  have hnext : saturatingAdd r.dispatchAttempts 1 = s.failures.count (s.current id) + 1 := by
    rw [hattempts, saturatingAdd]
    omega
  have hcount : (s.failures ++ [s.current id]).count (s.current id) = s.failures.count (s.current id) + 1 := by
    simp
  refine ⟨fun n hn => ?_, fun q hq => ?_⟩
  · have hne : s.current id ≠ ⟨id, n⟩ := by
      intro heq
      exact absurd (congrArg Publication.nth heq) (Nat.ne_of_lt hn)
    rw [List.count_append, h.later n hn, List.count_singleton]
    simp [hne]
  · cases hm.after.symm.trans hq
    show r'.dispatchAttempts = ((s.failures ++ [s.current id]).count (s.current id) : Nat) ∧
      (_ ↔ _ ∧ (s.failures ++ [s.current id]).count (s.current id) = _) ∧
        (s.failures ++ [s.current id]).count (s.current id) ≤ _
    rw [hcount, hattempt, hdead, hnext]
    refine ⟨rfl, ?_, by omega⟩
    constructor
    · intro hmax
      exact ⟨hpositive, by omega⟩
    · rintro ⟨-, hmax⟩
      omega

theorem budgeted_step {c : BusCall V} (h : Budgeted id maxAttempts s)
    (hfixed : ∀ owner error m base now, c = .failDispatch id owner error m base now → m = maxAttempts)
    (heffect : Effect s c s') : Budgeted id maxAttempts s' := by
  cases heffect with
  | same => exact h
  | @published row t _ hfresh hnew hrows =>
    by_cases hid : row.id = id
    · subst hid
      have hcount : (s.published ++ [row.id]).count row.id = s.published.count row.id + 1 := by simp
      have hzero : s.failures.count ⟨row.id, s.published.count row.id + 1⟩ = 0 := h.later _ (Nat.lt_succ_self _)
      refine ⟨fun n hn => h.later n ?_, fun r hr => ?_⟩
      · rw [hcount] at hn
        exact Nat.lt_of_succ_lt hn
      · rw [hrows, hfresh, if_pos rfl] at hr
        cases hr
        rw [current, hcount, hzero, hnew.2.1, hnew.2.2]
        refine ⟨rfl, iff_of_false nofun ?_, Nat.zero_le _⟩
        rintro ⟨hpositive, hmax⟩
        exact hpositive (UInt32.toNat.inj hmax.symm)
    · have hcount : (s.published ++ [row.id]).count id = s.published.count id := by simp [hid]
      refine ⟨fun n hn => h.later n (hcount ▸ hn), fun r hr => ?_⟩
      rw [hrows, if_neg hid, Option.or_none] at hr
      rw [current, hcount]
      exact h.row r hr
  | marked _ hm _ hsame | granted _ hm _ _ hsame => exact budgeted_of_moves h rfl rfl hm hsame
  | settled _ hm _ hsame => exact budgeted_of_moves h rfl rfl hm hsame
  | @failed j owner error m base now r r' t hcall hm _ hpositive hattempt hdead =>
    by_cases hj : j = id
    · subst hj
      obtain rfl := hfixed owner error m base now hcall
      exact budgeted_failed h hm hpositive hattempt hdead
    · have hfailures : ∀ n, (s.failures ++ [s.current j]).count ⟨id, n⟩ = s.failures.count ⟨id, n⟩ := by
        intro n
        have hne : s.current j ≠ ⟨id, n⟩ := fun heq => hj (congrArg Publication.id heq)
        rw [List.count_append, List.count_singleton]
        simp [hne]
      refine ⟨fun n hn => (hfailures n).trans (h.later n hn), fun q hq => ?_⟩
      rw [hm.frame id (Ne.symm hj)] at hq
      have hrow := h.row q hq
      rw [current] at hrow ⊢
      rw [hfailures]
      exact hrow
  | @purged p t _ _ hrows =>
    refine budgeted_of_same h rfl rfl fun r' hr' => ?_
    rw [hrows, Option.filter_eq_some_iff] at hr'
    exact ⟨r', hr'.1, rfl, rfl⟩

end Budget

/-! ## The listing -/

section Listing

variable {t : BusEvents}

theorem accepted_iff {now : Int} {id : String} : Accepted t now id ↔ (t.row id).any (·.claimable now) = true := by
  constructor
  · intro h
    exact h "" 1
  · intro h owner leaseSeconds
    exact h

theorem lists (t : BusEvents) (internalOnly : Bool) (bound now : Int) : Lists t internalOnly bound now := by
  have hmem : ∀ id, (∃ r ∈ orderBy BusEventRec.receivedAt
      (t.rows.filter (fun r => (!internalOnly || r.internal) && r.claimable now)), r.id = id) ↔
      Accepted t now id ∧ (internalOnly = true → (t.row id).any BusEventRec.internal = true) := by
    intro id
    rw [accepted_iff]
    constructor
    · rintro ⟨r, hr, rfl⟩
      rw [mem_orderBy, List.mem_filter, Bool.and_eq_true, Bool.or_eq_true, Bool.not_eq_true'] at hr
      have hrow : t.row r.id = some r := Keyed.row_iff.2 ⟨hr.1, rfl⟩
      rw [hrow, Option.any_some, Option.any_some]
      refine ⟨hr.2.2, fun honly => hr.2.1.resolve_left ?_⟩
      rw [honly]
      nofun
    · rintro ⟨haccepted, hinternal⟩
      cases hrow : t.row id with
      | none =>
        rw [hrow] at haccepted
        cases haccepted
      | some r =>
        rw [hrow, Option.any_some] at haccepted hinternal
        refine ⟨r, ?_, Keyed.key_of_row hrow⟩
        rw [mem_orderBy, List.mem_filter, Bool.and_eq_true, Bool.or_eq_true, Bool.not_eq_true']
        refine ⟨(Keyed.row_iff.1 hrow).1, ?_, haccepted⟩
        cases internalOnly with
        | false => exact .inl rfl
        | true => exact .inr (hinternal rfl)
  constructor
  · intro id hid
    obtain ⟨r, hr, hrid⟩ := List.mem_map.1 hid
    refine (hmem id).1 ⟨r, ?_, hrid⟩
    unfold limit at hr
    split at hr
    · exact hr
    · exact List.mem_of_mem_take hr
  · intro id haccepted hinternal hnot
    obtain ⟨r, hr, hrid⟩ := (hmem id).2 ⟨haccepted, hinternal⟩
    unfold fetchPending limit at hnot ⊢
    split at hnot
    · exact absurd (List.mem_map.2 ⟨r, hr, hrid⟩) hnot
    · next hbound =>
      rw [if_neg hbound, List.length_map, List.length_take]
      refine ⟨Int.not_lt.1 hbound, Nat.min_eq_left ?_⟩
      by_contra hlt
      rw [List.take_of_length_le (Nat.le_of_not_le hlt)] at hnot
      exact hnot (List.mem_map.2 ⟨r, hr, hrid⟩)

end Listing

/-- **The automation bus is safe** in every run. -/
theorem automation_bus_safe (calls : List (BusCall V)) : Safe json calls := by
  have howned : ∀ pre : List (BusCall V), Owned (run json pre) := fun pre =>
    Calls.after_invariant (fun s c hs => owned_step hs (exec_effect c)) owned_empty pre
  refine ⟨?_, ?_, ?_, ?_, ?_, ?_⟩
  · intro pre post _
    exact (howned pre).recorded.exclusive
  · intro pre c post _ hlate
    exact events_of_late (howned pre) hlate (exec_effect c)
  · intro pre mid post _ e hfinished
    rw [finished, Option.any_eq_true] at hfinished
    obtain ⟨r, hr, hunfinished⟩ := hfinished
    rw [Bool.not_eq_true'] at hunfinished
    have hrun : Finished e r (run json (pre ++ mid)) := by
      rw [run, Calls.after_append]
      exact Calls.after_invariant (fun s c hs => finished_step hs hunfinished (exec_effect c)) (.inl hr) mid
    exact not_pending_of_finished hrun hunfinished
  · intro pre post _ e maxAttempts hfixed r hr
    have hrun : Budgeted e.id maxAttempts (run json pre) := by
      refine Calls.Guarded.invariant (G := fun _ c => ∀ owner error m base now,
        c = .failDispatch e.id owner error m base now → m = maxAttempts)
        (fun s c hs hc => budgeted_step hs hc (exec_effect c)) (budgeted_empty e.id maxAttempts) ?_
      rintro pre' c post' rfl owner error m base now rfl
      exact hfixed owner error m base now (List.mem_append_right _ List.mem_cons_self)
    obtain ⟨hcount, hrow⟩ := rowOf_iff.1 hr
    have hcurrent : (run json pre).current e.id = e := by
      obtain ⟨id, nth⟩ := e
      rw [current, hcount]
    have hr' := hrun.row r hrow
    rw [hcurrent] at hr'
    exact hr'.2
  · intro pre post _ internalOnly bound now
    exact lists _ _ _ _
  · intro pre post _ cutoffUnix id r hr hunfinished
    have hopen : r.completedAt.isSome = false := by
      rw [BusEventRec.unfinished, Bool.and_eq_true, Option.isNone_iff_eq_none] at hunfinished
      rw [hunfinished.1]
      rfl
    rw [purgeDispatchedOlderThan, Keyed.row_removeAll, hr, Option.filter, hopen]
    rfl

end AutomationBus

end Execlaw
