import Execlaw.Calls
import Execlaw.Keyed
import Execlaw.Outbox
import Mathlib.Data.List.Dedup
import Mathlib.Data.String.Basic
/-!
# EntityMerges — entities, their names and their merges (`core/src/entities.rs`)

An entity is found by its aliases.  A merge that is accepted redirects the right entity to the left one, and the lookup
passes over an entity that is redirected; a reversal deletes the redirect.  The aliases stay with their entity, so a name
only the right entity has finds nothing while the merge is in force.
-/
namespace Execlaw

open Table

structure Entity where
  entityId : String
  kind : String
  canonicalLabel : String
  createdAt : Int
  retiredAt : Option Int

structure EntityAlias where
  aliasId : String
  entityId : String
  label : String
  validFrom : Int
  validTo : Option Int
  evidenceRef : String
  authoritative : Bool

inductive MergeStatus | proposed | accepted | rejected | reversed
deriving DecidableEq

structure EntityMergeProposal where
  proposalId : String
  leftEntityId : String
  rightEntityId : String
  status : MergeStatus
  evidenceRef : String
  proposedBy : Option String
  createdAt : Int
  decidedBy : Option String
  decidedAt : Option Int
deriving DecidableEq

structure EntityRedirect where
  sourceEntityId : String
  targetEntityId : String
  proposalId : String

structure EntityMergeDecision where
  decisionId : String
  proposalId : String
  actorId : String
  decision : MergeStatus
  reason : String
  createdAt : Int

structure EntityDb where
  entities : Keyed Entity.entityId (fun _ => True)
  aliases : Keyed EntityAlias.aliasId (fun _ => True)
  proposals : Keyed EntityMergeProposal.proposalId (fun p => p.leftEntityId ≠ p.rightEntityId)
  redirects : Keyed EntityRedirect.sourceEntityId (fun r => r.sourceEntityId ≠ r.targetEntityId)
  decisions : Keyed EntityMergeDecision.decisionId (fun _ => True)

def EntityDb.empty : EntityDb := ⟨.empty, .empty, .empty, .empty, .empty⟩

/-! ## The store -/

namespace EntityStore

def foreignKeyFailed : DbError := .sqlite "FOREIGN KEY constraint failed"

def uniqueFailed (column : String) : DbError := .sqlite s!"UNIQUE constraint failed: {column}"

/-- `INSERT`, or the error of a taken key. -/
def insertInto {ρ : Type} {key : ρ → String} {ok : ρ → Prop} (t : Keyed key ok) (r : ρ) (hr : ok r) (column : String) :
    Except DbError (Keyed key ok) :=
  match t.insert? r hr with
  | none => .error (uniqueFailed column)
  | some t => .ok t

/-- `create`; `id` is the UUID it draws. -/
def create (kind canonicalLabel : String) (now : Int) (id : String) (db : EntityDb) :
    Except DbError (String × EntityDb) :=
  if kind ∉ ["person", "project", "place", "resource"] ∨ (trim canonicalLabel).isEmpty then
    .error (.invariant "entity requires a supported kind and non-empty label")
  else
    match insertInto db.entities ⟨id, kind, trim canonicalLabel, now, none⟩ trivial "knowledge_entities.entity_id" with
    | .error e => .error e
    | .ok entities => .ok (id, { db with entities := entities })

def addAlias (entityId label : String) (validFrom : Int) (validTo : Option Int) (evidenceRef : String)
    (authoritative : Bool) (id : String) (db : EntityDb) : Except DbError (String × EntityDb) :=
  if (trim label).isEmpty ∨ (trim evidenceRef).isEmpty ∨ validTo.any (fun stop => decide (stop ≤ validFrom)) = true then
    .error (.invariant "alias needs a label, evidence, and valid time interval")
  else if (db.entities.row entityId).isNone then .error foreignKeyFailed
  else
    match insertInto db.aliases ⟨id, entityId, trim label, validFrom, validTo, evidenceRef, authoritative⟩ trivial
      "knowledge_entity_aliases.alias_id" with
    | .error e => .error e
    | .ok aliases => .ok (id, { db with aliases := aliases })

def proposeMerge (left right evidenceRef actorId : String) (now : Int) (id : String) (db : EntityDb) :
    Except DbError (String × EntityDb) :=
  if h : left = right ∨ (trim evidenceRef).isEmpty ∨ (trim actorId).isEmpty then
    .error (.invariant "merge requires distinct entities, evidence, and an operator actor")
  else if (db.entities.row left).isNone ∨ (db.entities.row right).isNone then .error foreignKeyFailed
  else
    match insertInto db.proposals ⟨id, left, right, .proposed, evidenceRef, some actorId, now, none, none⟩
      (fun heq => h (.inl heq)) "knowledge_entity_merge_proposals.proposal_id" with
    | .error e => .error e
    | .ok proposals => .ok (id, { db with proposals := proposals })

def decideChange (before after : MergeStatus) (actorId : String) (now : Int) :
    Change EntityMergeProposal.proposalId (fun p => p.leftEntityId ≠ p.rightEntityId) where
  takes := fun p => decide (p.status = before)
  set := fun p => { p with status := after, decidedAt := some now, decidedBy := some actorId }
  key_set := fun _ => rfl
  keeps_ok := fun _ h _ => h

def involved (left right : String) (db : EntityDb) : List EntityRedirect :=
  db.redirects.rows.filter fun r =>
    decide (r.sourceEntityId ∈ [left, right]) || decide (r.targetEntityId ∈ [left, right])

def recordDecision (proposalId actorId : String) (decision : MergeStatus) (reason : String) (now : Int)
    (decisionId : String) (db : EntityDb) : Except DbError EntityDb :=
  match insertInto db.decisions ⟨decisionId, proposalId, actorId, decision, reason, now⟩ trivial
    "knowledge_entity_merge_decisions.decision_id" with
  | .error e => .error e
  | .ok decisions => .ok { db with decisions := decisions }

def pendingProposal (proposalId : String) (db : EntityDb) : Option EntityMergeProposal :=
  (db.proposals.row proposalId).filter fun p => decide (p.status = .proposed)

variable {p : EntityMergeProposal}

theorem ne_of_row {proposalId : String} {db : EntityDb} (h : db.proposals.row proposalId = some p) :
    p.rightEntityId ≠ p.leftEntityId :=
  (db.proposals.checked p (Keyed.row_iff.1 h).1).symm

theorem ne_of_pending {proposalId : String} {db : EntityDb} (h : pendingProposal proposalId db = some p) :
    p.rightEntityId ≠ p.leftEntityId :=
  ne_of_row (Option.filter_eq_some_iff.1 h).1

def acceptMerge (proposalId actorId reason : String) (now : Int) (decisionId : String) (db : EntityDb) :
    Except DbError (Unit × EntityDb) :=
  if (trim actorId).isEmpty ∨ (trim reason).isEmpty then
    .error (.invariant "merge decision requires an operator actor and reason")
  else
    match hp : pendingProposal proposalId db with
    | none => .error (.invariant "merge proposal is not pending")
    | some p =>
      if (involved p.leftEntityId p.rightEntityId db).isEmpty = false then
        .error (.invariant ("merge rejected because an entity already participates in a merge; " ++
          "reverse that merge first"))
      else
        let db := { db with proposals := db.proposals.update proposalId (decideChange .proposed .accepted actorId now) }
        match insertInto db.redirects (⟨p.rightEntityId, p.leftEntityId, proposalId⟩ : EntityRedirect)
          (ne_of_pending hp) "knowledge_entity_redirects.source_entity_id" with
        | .error e => .error e
        | .ok redirects =>
          (recordDecision proposalId actorId .accepted reason now decisionId { db with redirects := redirects }).map
            fun db => ((), db)

def decidePendingMerge (proposalId actorId : String) (decision : MergeStatus) (reason : String) (now : Int)
    (decisionId : String) (db : EntityDb) : Except DbError (Unit × EntityDb) :=
  if (trim actorId).isEmpty ∨ (trim reason).isEmpty then
    .error (.invariant "merge decision requires an operator actor and reason")
  else if db.proposals.changed proposalId (decideChange .proposed decision actorId now) = false then
    .error (.invariant "merge proposal is not pending")
  else
    (recordDecision proposalId actorId decision reason now decisionId
      { db with proposals := db.proposals.update proposalId (decideChange .proposed decision actorId now) }).map
      fun db => ((), db)

def rejectMerge (proposalId actorId reason : String) (now : Int) (decisionId : String) (db : EntityDb) :
    Except DbError (Unit × EntityDb) :=
  decidePendingMerge proposalId actorId .rejected reason now decisionId db

def redirectsOf (proposalId : String) (db : EntityDb) : List EntityRedirect :=
  db.redirects.rows.filter (fun r => decide (r.proposalId = proposalId))

def reverseMerge (proposalId actorId reason : String) (now : Int) (decisionId : String) (db : EntityDb) :
    Except DbError (Unit × EntityDb) :=
  if (trim actorId).isEmpty ∨ (trim reason).isEmpty then
    .error (.invariant "merge reversal requires an operator actor and reason")
  else if (redirectsOf proposalId db).length ≠ 1 then .error (.invariant "accepted merge redirect is missing")
  else
    let db := { db with redirects := db.redirects.removeAll (fun r => decide (r.proposalId = proposalId)) }
    if db.proposals.changed proposalId (decideChange .accepted .reversed actorId now) = false then
      .error (.invariant "merge proposal is not accepted")
    else
      (recordDecision proposalId actorId .reversed reason now decisionId
        { db with proposals := db.proposals.update proposalId (decideChange .accepted .reversed actorId now) }).map
        fun db => ((), db)

structure Candidate where
  entityId : String
  kind : String
  canonicalLabel : String
  evidenceRef : String
deriving DecidableEq

end EntityStore

def EntityAlias.validAt (a : EntityAlias) (at_ : Int) : Bool :=
  decide (a.validFrom ≤ at_) && a.validTo.all (fun stop => decide (at_ < stop))

namespace EntityStore

def redirected (db : EntityDb) (entityId : String) : Bool := (db.redirects.row entityId).isSome

def candidateOf (db : EntityDb) (a : EntityAlias) : Option Candidate :=
  ((db.entities.row a.entityId).filter fun e => e.retiredAt.isNone && !redirected db e.entityId).map fun e =>
    ⟨e.entityId, e.kind, e.canonicalLabel, a.evidenceRef⟩

def candidates (label : String) (at_ : Int) (db : EntityDb) : List Candidate :=
  orderBy Candidate.entityId
    ((db.aliases.rows.filter fun a => decide (a.label = label) && a.validAt at_).filterMap (candidateOf db)).dedup

end EntityStore

inductive EntityCall
  | create (kind canonicalLabel : String) (now : Int) (id : String)
  | addAlias (entityId label : String) (validFrom : Int) (validTo : Option Int) (evidenceRef : String)
      (authoritative : Bool) (id : String)
  | proposeMerge (left right evidenceRef actorId : String) (now : Int) (id : String)
  | acceptMerge (proposalId actorId reason : String) (now : Int) (decisionId : String)
  | rejectMerge (proposalId actorId reason : String) (now : Int) (decisionId : String)
  | reverseMerge (proposalId actorId reason : String) (now : Int) (decisionId : String)

namespace EntityDb

open EntityStore

def body : EntityCall → EntityDb → Except DbError (Option String × EntityDb)
  | .create kind label now id, db => (create kind label now id db).map fun p => (some p.1, p.2)
  | .addAlias entityId label validFrom validTo evidenceRef authoritative id, db =>
    (addAlias entityId label validFrom validTo evidenceRef authoritative id db).map fun p => (some p.1, p.2)
  | .proposeMerge left right evidenceRef actorId now id, db =>
    (proposeMerge left right evidenceRef actorId now id db).map fun p => (some p.1, p.2)
  | .acceptMerge proposalId actorId reason now decisionId, db =>
    (acceptMerge proposalId actorId reason now decisionId db).map fun p => (none, p.2)
  | .rejectMerge proposalId actorId reason now decisionId, db =>
    (rejectMerge proposalId actorId reason now decisionId db).map fun p => (none, p.2)
  | .reverseMerge proposalId actorId reason now decisionId, db =>
    (reverseMerge proposalId actorId reason now decisionId db).map fun p => (none, p.2)

/-- **One call**: what its transaction did, or nothing. -/
def exec (db : EntityDb) (c : EntityCall) : Except DbError (Option String) × EntityDb := Calls.transact (body c) db

/-! ## What a call does -/

def Signed (actorId reason : String) : Prop := ¬ ((trim actorId).isEmpty = true ∨ (trim reason).isEmpty = true)

inductive Effect (db : EntityDb) : EntityCall → EntityDb → Prop
  | created {kind label : String} {now : Int} {id : String} {entities}
      (guard : ¬ (kind ∉ ["person", "project", "place", "resource"] ∨ (trim label).isEmpty = true))
      (fresh : db.entities.row id = none)
      (rows : entities.rows = db.entities.rows ++ [⟨id, kind, trim label, now, none⟩]) :
      Effect db (.create kind label now id) { db with entities := entities }
  | aliased {entityId label : String} {validFrom : Int} {validTo : Option Int} {evidenceRef : String}
      {authoritative : Bool} {id : String} {aliases}
      (guard : ¬ ((trim label).isEmpty = true ∨ (trim evidenceRef).isEmpty = true ∨
        validTo.any (fun stop => decide (stop ≤ validFrom)) = true))
      (entity : (db.entities.row entityId).isSome = true) (fresh : db.aliases.row id = none)
      (rows : aliases.rows = db.aliases.rows ++
        [⟨id, entityId, trim label, validFrom, validTo, evidenceRef, authoritative⟩]) :
      Effect db (.addAlias entityId label validFrom validTo evidenceRef authoritative id) { db with aliases := aliases }
  | proposed {left right evidenceRef actorId : String} {now : Int} {id : String} {proposals}
      (guard : ¬ (left = right ∨ (trim evidenceRef).isEmpty = true ∨ (trim actorId).isEmpty = true))
      (entities : (db.entities.row left).isSome = true ∧ (db.entities.row right).isSome = true)
      (fresh : db.proposals.row id = none)
      (rows : proposals.rows = db.proposals.rows ++
        [⟨id, left, right, .proposed, evidenceRef, some actorId, now, none, none⟩]) :
      Effect db (.proposeMerge left right evidenceRef actorId now id) { db with proposals := proposals }
  | accepted {proposalId actorId reason : String} {now : Int} {decisionId : String} {p : EntityMergeProposal}
      {redirects decisions} (signed : Signed actorId reason) (pending : db.proposals.row proposalId = some p)
      (status : p.status = .proposed) (free : involved p.leftEntityId p.rightEntityId db = [])
      (rows : redirects.rows = db.redirects.rows ++ [⟨p.rightEntityId, p.leftEntityId, proposalId⟩])
      (fresh : db.decisions.row decisionId = none)
      (decided : decisions.rows = db.decisions.rows ++ [⟨decisionId, proposalId, actorId, .accepted, reason, now⟩]) :
      Effect db (.acceptMerge proposalId actorId reason now decisionId)
        { db with
          proposals := db.proposals.update proposalId (decideChange .proposed .accepted actorId now)
          redirects := redirects, decisions := decisions }
  | rejected {proposalId actorId reason : String} {now : Int} {decisionId : String} {p : EntityMergeProposal}
      {decisions} (signed : Signed actorId reason) (pending : db.proposals.row proposalId = some p)
      (status : p.status = .proposed) (fresh : db.decisions.row decisionId = none)
      (decided : decisions.rows = db.decisions.rows ++ [⟨decisionId, proposalId, actorId, .rejected, reason, now⟩]) :
      Effect db (.rejectMerge proposalId actorId reason now decisionId)
        { db with
          proposals := db.proposals.update proposalId (decideChange .proposed .rejected actorId now)
          decisions := decisions }
  | reversed {proposalId actorId reason : String} {now : Int} {decisionId : String} {p : EntityMergeProposal}
      {decisions} (signed : Signed actorId reason) (pending : db.proposals.row proposalId = some p)
      (status : p.status = .accepted) (one : (redirectsOf proposalId db).length = 1)
      (fresh : db.decisions.row decisionId = none)
      (decided : decisions.rows = db.decisions.rows ++ [⟨decisionId, proposalId, actorId, .reversed, reason, now⟩]) :
      Effect db (.reverseMerge proposalId actorId reason now decisionId)
        { db with
          proposals := db.proposals.update proposalId (decideChange .accepted .reversed actorId now)
          redirects := db.redirects.removeAll (fun r => decide (r.proposalId = proposalId)), decisions := decisions }

variable {db db' : EntityDb} {c : EntityCall}

section Insert

variable {ρ : Type} {key : ρ → String} {ok : ρ → Prop} {t t' : Keyed key ok} {r : ρ} {hr : ok r} {column : String}

theorem insertInto_iff : insertInto t r hr column = .ok t' ↔ t.row (key r) = none ∧ t'.rows = t.rows ++ [r] := by
  constructor
  · intro h
    unfold insertInto at h
    split at h
    · cases h
    next hins =>
    cases h
    exact ⟨(Keyed.insert?_eq_some hins).1, Keyed.rows_insert? hins⟩
  · rintro ⟨hnone, hrows⟩
    unfold insertInto
    split
    · next hins => rw [Keyed.insert?_eq_none, hnone] at hins; cases hins
    · next u hins =>
      have hu : u.rows = t'.rows := (Keyed.rows_insert? hins).trans hrows.symm
      cases u
      cases t'
      cases hu
      rfl

theorem row_inserted (hrows : t'.rows = t.rows ++ [r]) (hnone : t.row (key r) = none) (k : String) :
    t'.row k = (t.row k).or (if key r = k then some r else none) := by
  have hr : ok r := t'.checked r (hrows ▸ List.mem_append_right _ (List.mem_singleton_self r))
  have hins : t.insert? r hr = some t' := by
    have hinto := (@insertInto_iff _ _ _ _ _ _ hr "").2 ⟨hnone, hrows⟩
    unfold insertInto at hinto
    split at hinto
    · cases hinto
    · next heq => rw [heq, Except.ok.inj hinto]
  exact (Keyed.insert?_eq_some hins).2 k

end Insert

variable {proposalId actorId : String} {decision : MergeStatus}

theorem recordDecision_of {reason : String} {now : Int} {decisionId : String} {decisions}
    (hfresh : db.decisions.row decisionId = none)
    (hdecided : decisions.rows = db.decisions.rows ++ [⟨decisionId, proposalId, actorId, decision, reason, now⟩]) :
    recordDecision proposalId actorId decision reason now decisionId db = .ok { db with decisions := decisions } := by
  rw [recordDecision, insertInto_iff.2 ⟨hfresh, hdecided⟩]

theorem recordDecision_ok {reason : String} {now : Int} {decisionId : String}
    (h : recordDecision proposalId actorId decision reason now decisionId db = .ok db') :
    ∃ decisions, db' = { db with decisions := decisions } ∧ db.decisions.row decisionId = none ∧
      decisions.rows = db.decisions.rows ++ [⟨decisionId, proposalId, actorId, decision, reason, now⟩] := by
  unfold recordDecision at h
  split at h
  · cases h
  next decisions hins => exact ⟨decisions, (Except.ok.inj h).symm, insertInto_iff.1 hins⟩

theorem changed_status {before after : MergeStatus} {now : Int} :
    db.proposals.changed proposalId (decideChange before after actorId now) = true ↔
      ∃ p, db.proposals.row proposalId = some p ∧ p.status = before := by
  rw [Keyed.changed_iff]
  simp [decideChange]

theorem map_eq_ok {ε α β : Type} {x : Except ε α} {f : α → β} {b : β} (h : x.map f = .ok b) :
    ∃ a, x = .ok a ∧ f a = b := by
  cases x with
  | error e => cases h
  | ok a => exact ⟨a, rfl, Except.ok.inj h⟩

theorem body_effect {answer : Option String} (h : body c db = .ok (answer, db')) : Effect db c db' := by
  cases c with
  | create kind label now id =>
    obtain ⟨⟨_, _⟩, hcreate, hp⟩ := map_eq_ok h
    cases hp
    unfold create at hcreate
    split at hcreate
    · cases hcreate
    next hguard =>
    split at hcreate
    · cases hcreate
    next entities hins =>
    cases hcreate
    exact .created hguard (insertInto_iff.1 hins).1 (insertInto_iff.1 hins).2
  | addAlias entityId label validFrom validTo evidenceRef authoritative id =>
    obtain ⟨⟨_, _⟩, halias, hp⟩ := map_eq_ok h
    cases hp
    unfold addAlias at halias
    split at halias
    · cases halias
    next hguard =>
    split at halias
    · cases halias
    next hentity =>
    split at halias
    · cases halias
    next aliases hins =>
    cases halias
    exact .aliased hguard (by simpa [Option.isSome_iff_ne_none] using hentity) (insertInto_iff.1 hins).1
      (insertInto_iff.1 hins).2
  | proposeMerge left right evidenceRef actorId now id =>
    obtain ⟨⟨_, _⟩, hpropose, hp⟩ := map_eq_ok h
    cases hp
    unfold proposeMerge at hpropose
    split at hpropose
    · cases hpropose
    next hguard =>
    split at hpropose
    · cases hpropose
    next hentities =>
    split at hpropose
    · cases hpropose
    next proposals hins =>
    cases hpropose
    exact .proposed hguard (by simpa [not_or, Option.isSome_iff_ne_none] using hentities) (insertInto_iff.1 hins).1
      (insertInto_iff.1 hins).2
  | acceptMerge proposalId actorId reason now decisionId =>
    obtain ⟨⟨_, _⟩, haccept, hp⟩ := map_eq_ok h
    cases hp
    unfold acceptMerge at haccept
    split at haccept
    · cases haccept
    next hsigned =>
    split at haccept
    · cases haccept
    next p hpending =>
    split at haccept
    · cases haccept
    next hfree =>
    dsimp only at haccept
    split at haccept
    · cases haccept
    next redirects hins =>
    obtain ⟨db₂, hrecord, heq⟩ := map_eq_ok haccept
    cases heq
    obtain ⟨decisions, rfl, hfresh, hdecided⟩ := recordDecision_ok hrecord
    obtain ⟨hrow, hstatus⟩ := Option.filter_eq_some_iff.1 hpending
    rw [Bool.not_eq_false, List.isEmpty_iff] at hfree
    exact .accepted hsigned hrow (of_decide_eq_true hstatus) hfree (insertInto_iff.1 hins).2 hfresh hdecided
  | rejectMerge proposalId actorId reason now decisionId =>
    obtain ⟨⟨_, _⟩, hreject, hp⟩ := map_eq_ok h
    cases hp
    unfold rejectMerge decidePendingMerge at hreject
    split at hreject
    · cases hreject
    next hsigned =>
    split at hreject
    · cases hreject
    next hchanged =>
    obtain ⟨db₂, hrecord, heq⟩ := map_eq_ok hreject
    cases heq
    obtain ⟨decisions, rfl, hfresh, hdecided⟩ := recordDecision_ok hrecord
    obtain ⟨p, hrow, hstatus⟩ := changed_status.1 (by simpa using hchanged)
    exact .rejected hsigned hrow hstatus hfresh hdecided
  | reverseMerge proposalId actorId reason now decisionId =>
    obtain ⟨⟨_, _⟩, hreverse, hp⟩ := map_eq_ok h
    cases hp
    unfold reverseMerge at hreverse
    split at hreverse
    · cases hreverse
    next hsigned =>
    split at hreverse
    · cases hreverse
    next hone =>
    dsimp only at hreverse
    split at hreverse
    · cases hreverse
    next hchanged =>
    obtain ⟨db₂, hrecord, heq⟩ := map_eq_ok hreverse
    cases heq
    obtain ⟨decisions, rfl, hfresh, hdecided⟩ := recordDecision_ok hrecord
    obtain ⟨p, hrow, hstatus⟩ := changed_status.1 (by simpa using hchanged)
    exact .reversed hsigned hrow hstatus (by simpa using hone) hfresh hdecided

theorem row_right_of_free {left right : String} (h : involved left right db = []) : db.redirects.row right = none := by
  refine Option.eq_none_iff_forall_ne_some.2 fun r hr => ?_
  obtain ⟨hmem, hsource⟩ := Keyed.row_iff.1 hr
  exact absurd (List.filter_eq_nil_iff.1 h r hmem) (by simp [hsource])

theorem Effect.exec (he : Effect db c db') : ∃ answer, exec db c = (.ok answer, db') := by
  have hok : ∀ answer, body c db = .ok (answer, db') → ∃ answer, EntityDb.exec db c = (.ok answer, db') :=
    fun _ h => ⟨_, Calls.transact_of_ok h⟩
  cases he with
  | @created kind label now id entities guard fresh rows =>
    refine hok (some id) ?_
    rw [body, create, if_neg guard, insertInto_iff.2 ⟨fresh, rows⟩]
    rfl
  | @aliased _ _ _ _ _ _ id aliases guard entity fresh rows =>
    refine hok (some id) ?_
    rw [body, addAlias, if_neg guard, if_neg (by simpa [Option.isSome_iff_ne_none] using entity),
      insertInto_iff.2 ⟨fresh, rows⟩]
    rfl
  | @proposed _ _ _ _ _ id proposals guard entities fresh rows =>
    refine hok (some id) ?_
    rw [body, proposeMerge, dif_neg guard, if_neg (by simpa [not_or, Option.isSome_iff_ne_none] using entities),
      insertInto_iff.2 ⟨fresh, rows⟩]
    rfl
  | @accepted proposalId actorId reason now decisionId p redirects decisions signed pending status free rows fresh
      decided =>
    refine hok none ?_
    rw [body, acceptMerge, if_neg signed]
    split
    · next hnone =>
      rw [pendingProposal, pending, Option.filter_some, if_pos (decide_eq_true status)] at hnone
      cases hnone
    · next q hq =>
      cases pending.symm.trans (Option.filter_eq_some_iff.1 hq).1
      rw [free, if_neg (by simp)]
      dsimp only
      rw [insertInto_iff.2 ⟨row_right_of_free free, rows⟩]
      dsimp only
      rw [recordDecision_of (by exact fresh) (by exact decided)]
      rfl
  | rejected signed pending status fresh decided =>
    refine hok none ?_
    rw [body, rejectMerge, decidePendingMerge, if_neg signed,
      if_neg (by rw [changed_status.2 ⟨_, pending, status⟩]; nofun),
      recordDecision_of (by exact fresh) (by exact decided)]
    rfl
  | reversed signed pending status one fresh decided =>
    refine hok none ?_
    rw [body, reverseMerge, if_neg signed, if_neg (by simpa using one)]
    rw [if_neg (by rw [changed_status.2 ⟨_, pending, status⟩]; nofun),
      recordDecision_of (by exact fresh) (by exact decided)]
    rfl

theorem exec_cases (db : EntityDb) (c : EntityCall) :
    (∃ e, exec db c = (.error e, db)) ∨ ∃ answer db', exec db c = (.ok answer, db') ∧ Effect db c db' := by
  rcases Calls.transact_cases (body c) db with ⟨e, -, h⟩ | ⟨answer, db', hbody, h⟩
  · exact .inl ⟨e, h⟩
  · exact .inr ⟨answer, db', h, body_effect hbody⟩

/-! ## What holds of any run -/

def Involves (r : EntityRedirect) (entityId : String) : Prop := entityId = r.sourceEntityId ∨ entityId = r.targetEntityId

/-- **Redirects belong to accepted proposals**, one to each, and no two share an entity; nothing is retired, and what
proposals and aliases name is there. -/
structure Sound (db : EntityDb) : Prop where
  linked : ∀ r ∈ db.redirects.rows, ∃ p, db.proposals.row r.proposalId = some p ∧ p.status = .accepted ∧
    r.sourceEntityId = p.rightEntityId ∧ r.targetEntityId = p.leftEntityId
  backed : ∀ id p, db.proposals.row id = some p →
    (redirectsOf id db).length = if p.status = .accepted then 1 else 0
  apart : ∀ e, ∀ r ∈ db.redirects.rows, ∀ r' ∈ db.redirects.rows, Involves r e → Involves r' e → r = r'
  proposed : ∀ id p, db.proposals.row id = some p → (db.entities.row p.leftEntityId).isSome = true ∧
    (db.entities.row p.rightEntityId).isSome = true
  named : ∀ a ∈ db.aliases.rows, (db.entities.row a.entityId).isSome = true
  active : ∀ id e, db.entities.row id = some e → e.retiredAt = none

theorem sound_empty : Sound .empty := ⟨nofun, nofun, nofun, nofun, nofun, nofun⟩

theorem row_decide {before after : MergeStatus} {actorId : String} {now : Int} {id : String} {p : EntityMergeProposal}
    (hp : db.proposals.row id = some p) (hstatus : p.status = before) :
    (db.proposals.update id (decideChange before after actorId now)).row id =
      some { p with status := after, decidedAt := some now, decidedBy := some actorId } := by
  rw [Keyed.row_update_self, hp, Option.map_some]
  exact congrArg some (if_pos (decide_eq_true hstatus))

theorem row_decide_cases {before after : MergeStatus} {actorId : String} {now : Int} {id k : String}
    {p q : EntityMergeProposal} (hp : db.proposals.row id = some p) (hstatus : p.status = before)
    (hq : (db.proposals.update id (decideChange before after actorId now)).row k = some q) :
    (k = id ∧ q = { p with status := after, decidedAt := some now, decidedBy := some actorId }) ∨
      (k ≠ id ∧ db.proposals.row k = some q) := by
  by_cases hk : k = id
  · subst hk
    exact .inl ⟨rfl, Option.mem_unique hq (row_decide hp hstatus)⟩
  · rw [Keyed.row_update_of_ne _ hk] at hq
    exact .inr ⟨hk, hq⟩

theorem isSome_entities {entities : Keyed Entity.entityId (fun _ => True)} {e : Entity}
    (rows : entities.rows = db.entities.rows ++ [e]) {id : String} (h : (db.entities.row id).isSome = true) :
    (entities.row id).isSome = true := by
  obtain ⟨f, hf⟩ := Option.isSome_iff_exists.1 h
  obtain ⟨hmem, hid⟩ := Keyed.row_iff.1 hf
  rw [Keyed.row_iff.2 ⟨rows ▸ List.mem_append_left _ hmem, hid⟩]
  rfl

theorem Sound.effect (h : Sound db) (he : Effect db c db') : Sound db' := by
  cases he with
  | @created kind label now id entities guard fresh rows =>
    refine ⟨h.linked, h.backed, h.apart, fun k p hp => ?_, fun a ha => isSome_entities rows (h.named a ha),
      fun k e hk => ?_⟩
    · exact ⟨isSome_entities rows (h.proposed k p hp).1, isSome_entities rows (h.proposed k p hp).2⟩
    · obtain ⟨hmem, hid⟩ := Keyed.row_iff.1 hk
      rw [rows, List.mem_append, List.mem_singleton] at hmem
      rcases hmem with hmem | rfl
      · exact h.active k e (Keyed.row_iff.2 ⟨hmem, hid⟩)
      · rfl
  | @aliased entityId label validFrom validTo evidenceRef authoritative id aliases guard entity fresh rows =>
    refine ⟨h.linked, h.backed, h.apart, h.proposed, fun a ha => ?_, h.active⟩
    rw [rows, List.mem_append, List.mem_singleton] at ha
    rcases ha with ha | rfl
    · exact h.named a ha
    · exact entity
  | @proposed left right evidenceRef actorId now id proposals guard entities fresh rows =>
    replace rows := row_inserted rows fresh
    have hold : ∀ {k p}, db.proposals.row k = some p → proposals.row k = some p := by
      intro k p hp
      rw [rows, hp, Option.some_or]
    -- a new proposal has no redirect yet
    have hnone : redirectsOf id db = [] := by
      refine List.filter_eq_nil_iff.2 fun r hr hid => ?_
      obtain ⟨p, hp, -⟩ := h.linked r hr
      rw [of_decide_eq_true hid, fresh] at hp
      cases hp
    refine ⟨fun r hr => ?_, fun k p hp => ?_, h.apart, fun k p hp => ?_, h.named, h.active⟩
    · obtain ⟨p, hp, hrest⟩ := h.linked r hr
      exact ⟨p, hold hp, hrest⟩
    · rw [rows] at hp
      rcases Option.or_eq_some_iff.1 hp with hq | ⟨-, hq⟩
      · exact h.backed k p hq
      · split at hq
        · next hk =>
          rw [← hk, ← Option.some.inj hq]
          exact congrArg List.length hnone
        · cases hq
    · rw [rows] at hp
      rcases Option.or_eq_some_iff.1 hp with hq | ⟨-, hq⟩
      · exact h.proposed k p hq
      · split at hq
        · rw [← Option.some.inj hq]
          exact entities
        · cases hq
  | @accepted proposalId actorId reason now decisionId p redirects decisions signed pending status free rows fresh
      decided =>
    have hother : ∀ r ∈ db.redirects.rows, r.proposalId ≠ proposalId := by
      intro r hr hid
      obtain ⟨q, hq, haccepted, -⟩ := h.linked r hr
      rw [hid, pending] at hq
      rw [← Option.some.inj hq, status] at haccepted
      cases haccepted
    have hnew : ∀ r ∈ db.redirects.rows, ∀ e, Involves r e →
        ¬ Involves ⟨p.rightEntityId, p.leftEntityId, proposalId⟩ e := by
      intro r hr e hinv hnew
      have hout := List.filter_eq_nil_iff.1 free r hr
      rw [Bool.or_eq_true, decide_eq_true_eq, decide_eq_true_eq, not_or] at hout
      obtain ⟨hsource, htarget⟩ := hout
      simp only [List.mem_cons, List.not_mem_nil, or_false, not_or] at hsource htarget
      rcases hinv with rfl | rfl <;> rcases hnew with heq | heq
      · exact hsource.2 heq
      · exact hsource.1 heq
      · exact htarget.2 heq
      · exact htarget.1 heq
    refine ⟨fun r hr => ?_, fun k q hq => ?_, fun e r hr r' hr' hinv hinv' => ?_, fun k q hq => ?_, h.named, h.active⟩
    · rw [rows, List.mem_append, List.mem_singleton] at hr
      rcases hr with hr | rfl
      · obtain ⟨q, hq, hrest⟩ := h.linked r hr
        exact ⟨q, (Keyed.row_update_of_ne _ (hother r hr) _).trans hq, hrest⟩
      · exact ⟨_, row_decide pending status, rfl, rfl, rfl⟩
    · have hlength : (redirectsOf k { db with
          proposals := db.proposals.update proposalId (decideChange .proposed .accepted actorId now)
          redirects := redirects, decisions := decisions }).length =
          (redirectsOf k db).length + if k = proposalId then 1 else 0 := by
        rw [redirectsOf, rows, List.filter_append, List.length_append]
        by_cases hk : k = proposalId
        · simp [redirectsOf, hk]
        · simp [redirectsOf, hk, Ne.symm hk]
      rw [hlength]
      rcases row_decide_cases pending status hq with ⟨rfl, rfl⟩ | ⟨hk, hq⟩
      · simp [h.backed k p pending, status]
      · rw [h.backed k q hq, if_neg hk, Nat.add_zero]
    · rw [rows, List.mem_append, List.mem_singleton] at hr hr'
      rcases hr with hr | rfl <;> rcases hr' with hr' | rfl
      · exact h.apart e r hr r' hr' hinv hinv'
      · exact absurd hinv' (hnew r hr e hinv)
      · exact absurd hinv (hnew r' hr' e hinv')
      · rfl
    · rcases row_decide_cases pending status hq with ⟨-, rfl⟩ | ⟨-, hq⟩
      · exact h.proposed proposalId p pending
      · exact h.proposed k q hq
  | @rejected proposalId actorId reason now decisionId p decisions signed pending status fresh decided =>
    have hnone := h.backed proposalId p pending
    rw [status] at hnone
    refine ⟨fun r hr => ?_, fun k q hq => ?_, h.apart, fun k q hq => ?_, h.named, h.active⟩
    · obtain ⟨q, hq, haccepted, hrest⟩ := h.linked r hr
      have hid : r.proposalId ≠ proposalId := by
        intro hid
        rw [hid, pending] at hq
        rw [← Option.some.inj hq, status] at haccepted
        cases haccepted
      exact ⟨q, (Keyed.row_update_of_ne _ hid _).trans hq, haccepted, hrest⟩
    · rcases row_decide_cases pending status hq with ⟨rfl, rfl⟩ | ⟨-, hq⟩
      · exact hnone
      · exact h.backed k q hq
    · rcases row_decide_cases pending status hq with ⟨-, rfl⟩ | ⟨-, hq⟩
      · exact h.proposed proposalId p pending
      · exact h.proposed k q hq
  | @reversed proposalId actorId reason now decisionId p decisions signed pending status one fresh decided =>
    have hkept : ∀ r, r ∈ (db.redirects.removeAll (fun r => decide (r.proposalId = proposalId))).rows →
        r ∈ db.redirects.rows ∧ r.proposalId ≠ proposalId := by
      intro r hr
      simpa [Keyed.removeAll] using hr
    refine ⟨fun r hr => ?_, fun k q hq => ?_, fun e r hr r' hr' => h.apart e r (hkept r hr).1 r' (hkept r' hr').1,
      fun k q hq => ?_, h.named, h.active⟩
    · obtain ⟨q, hq, hrest⟩ := h.linked r (hkept r hr).1
      exact ⟨q, (Keyed.row_update_of_ne _ (hkept r hr).2 _).trans hq, hrest⟩
    · rcases row_decide_cases pending status hq with ⟨rfl, rfl⟩ | ⟨hk, hq⟩
      · refine congrArg List.length (List.filter_eq_nil_iff.2 fun r hr hid => ?_)
        exact (hkept r hr).2 (of_decide_eq_true hid)
      · rw [← h.backed k q hq, redirectsOf, redirectsOf, Keyed.removeAll, List.filter_filter]
        refine congrArg List.length (List.filter_congr fun r _ => ?_)
        by_cases hr : r.proposalId = k
        · simp [hr, hk]
        · simp [hr]
    · rcases row_decide_cases pending status hq with ⟨-, rfl⟩ | ⟨-, hq⟩
      · exact h.proposed proposalId p pending
      · exact h.proposed k q hq

theorem Sound.exec (h : Sound db) (c : EntityCall) : Sound (exec db c).2 := by
  rcases exec_cases db c with ⟨e, hexec⟩ | ⟨answer, db', hexec, heffect⟩
  · rwa [hexec]
  · rw [hexec]
    exact h.effect heffect

theorem sound_after (calls : List EntityCall) : Sound (Calls.after exec .empty calls) :=
  Calls.after_invariant (fun _ c h => h.exec c) sound_empty calls

def Moves (before after : MergeStatus) : Prop :=
  after = before ∨ (before = .proposed ∧ after = .accepted) ∨ (before = .accepted ∧ after = .reversed) ∨
    (before = .proposed ∧ after = .rejected)

theorem Effect.proposal (he : Effect db c db') {id : String} {p : EntityMergeProposal}
    (hp : db.proposals.row id = some p) : ∃ p', db'.proposals.row id = some p' ∧ Moves p.status p'.status ∧
      p'.leftEntityId = p.leftEntityId ∧ p'.rightEntityId = p.rightEntityId := by
  have hdecide : ∀ {before after : MergeStatus} {actorId : String} {now : Int} {k : String} {q : EntityMergeProposal},
      db.proposals.row k = some q → q.status = before → Moves before after →
      ∃ p', (db.proposals.update k (decideChange before after actorId now)).row id = some p' ∧
        Moves p.status p'.status ∧ p'.leftEntityId = p.leftEntityId ∧ p'.rightEntityId = p.rightEntityId := by
    intro before after actorId now k q hq hstatus hmoves
    by_cases hk : id = k
    · subst hk
      cases hp.symm.trans hq
      exact ⟨_, row_decide hp hstatus, hstatus ▸ hmoves, rfl, rfl⟩
    · exact ⟨p, (Keyed.row_update_of_ne _ hk _).trans hp, .inl rfl, rfl, rfl⟩
  cases he with
  | created guard fresh rows | aliased guard entity fresh rows => exact ⟨p, hp, .inl rfl, rfl, rfl⟩
  | proposed guard entities fresh rows =>
    refine ⟨p, ?_, .inl rfl, rfl, rfl⟩
    rw [row_inserted rows fresh, hp, Option.some_or]
  | accepted signed pending status free rows fresh decided => exact hdecide pending status (.inr (.inl ⟨rfl, rfl⟩))
  | rejected signed pending status fresh decided => exact hdecide pending status (.inr (.inr (.inr ⟨rfl, rfl⟩)))
  | reversed signed pending status one fresh decided => exact hdecide pending status (.inr (.inr (.inl ⟨rfl, rfl⟩)))

theorem Effect.new_proposal (he : Effect db c db') {id : String} {p' : EntityMergeProposal}
    (hp : db.proposals.row id = none) (hp' : db'.proposals.row id = some p') : p'.status = .proposed := by
  have hdecide : ∀ {change : Change EntityMergeProposal.proposalId (fun p => p.leftEntityId ≠ p.rightEntityId)}
      {k : String}, (db.proposals.update k change).row id ≠ some p' := by
    intro change k hrow
    rw [Keyed.row_update_eq_none hp] at hrow
    cases hrow
  cases he with
  | created guard fresh rows | aliased guard entity fresh rows => rw [hp] at hp'; cases hp'
  | proposed guard entities fresh rows =>
    rw [row_inserted rows fresh, hp, Option.none_or] at hp'
    split at hp'
    · rw [← Option.some.inj hp']
    · cases hp'
  | accepted signed pending status free rows fresh decided => exact absurd hp' hdecide
  | rejected signed pending status fresh decided => exact absurd hp' hdecide
  | reversed signed pending status one fresh decided => exact absurd hp' hdecide

theorem exec_proposal (c : EntityCall) {id : String} {p : EntityMergeProposal} (hp : db.proposals.row id = some p) :
    ∃ p', (exec db c).2.proposals.row id = some p' ∧ Moves p.status p'.status ∧
      p'.leftEntityId = p.leftEntityId ∧ p'.rightEntityId = p.rightEntityId := by
  rcases exec_cases db c with ⟨e, hexec⟩ | ⟨answer, db', hexec, heffect⟩
  · rw [hexec]
    exact ⟨p, hp, .inl rfl, rfl, rfl⟩
  · rw [hexec]
    exact heffect.proposal hp

theorem proposal_after {calls : List EntityCall} {id : String} {p : EntityMergeProposal}
    (hp : db.proposals.row id = some p) : ∃ p', (Calls.after exec db calls).proposals.row id = some p' ∧
      p'.leftEntityId = p.leftEntityId ∧ p'.rightEntityId = p.rightEntityId ∧
      (p.status = .reversed → p'.status = .reversed) ∧ (p.status ≠ .proposed → p'.status ≠ .proposed) := by
  induction calls generalizing db p with
  | nil => exact ⟨p, hp, rfl, rfl, fun h => h, fun h => h⟩
  | cons c calls ih =>
    obtain ⟨q, hq, hmoves, hleft, hright⟩ := exec_proposal c hp
    obtain ⟨p', hp', hleft', hright', hreversed, hdecided⟩ := ih hq
    refine ⟨p', hp', hleft'.trans hleft, hright'.trans hright, fun h => hreversed ?_, fun h => hdecided ?_⟩
    · rcases hmoves with h' | ⟨h', -⟩ | ⟨h', -⟩ | ⟨h', -⟩
      · exact h'.trans h
      all_goals rw [h] at h'; cases h'
    · rcases hmoves with h' | ⟨h', -⟩ | ⟨-, h'⟩ | ⟨h', -⟩
      · rwa [h']
      · exact absurd h' h
      · rw [h']
        nofun
      · exact absurd h' h

/-! ## Names -/

variable {at_ : Int}

theorem mem_candidates {label id : String} : (∃ x ∈ candidates label at_ db, x.entityId = id) ↔
    ∃ a ∈ db.aliases.rows, a.label = label ∧ a.validAt at_ = true ∧ a.entityId = id ∧
      ∃ e, db.entities.row id = some e ∧ e.retiredAt = none ∧ redirected db id = false := by
  simp only [candidates, mem_orderBy, List.mem_dedup, List.mem_filterMap, List.mem_filter, Bool.and_eq_true,
    decide_eq_true_eq]
  constructor
  · rintro ⟨x, ⟨a, ⟨ha, hlabel, hat⟩, hx⟩, rfl⟩
    obtain ⟨e, he, rfl⟩ := Option.map_eq_some_iff.1 hx
    obtain ⟨hrow, hactive⟩ := Option.filter_eq_some_iff.1 he
    have hid : e.entityId = a.entityId := Keyed.key_of_row hrow
    rw [Bool.and_eq_true, Bool.not_eq_true', Option.isNone_iff_eq_none] at hactive
    refine ⟨a, ha, hlabel, hat, hid.symm, e, ?_, hactive⟩
    rw [hid]
    exact hrow
  · rintro ⟨a, ha, hlabel, hat, rfl, e, hrow, hretired, hredirected⟩
    have hid : e.entityId = a.entityId := Keyed.key_of_row hrow
    refine ⟨⟨e.entityId, e.kind, e.canonicalLabel, a.evidenceRef⟩, ⟨a, ⟨ha, hlabel, hat⟩, ?_⟩, hid⟩
    rw [candidateOf, hrow, Option.filter_some, if_pos (by rw [hid, hredirected, hretired]; rfl)]
    rfl

variable {a : EntityAlias}

theorem candidate_of_alias (h : Sound db) (ha : a ∈ db.aliases.rows) (hat : a.validAt at_ = true)
    (hfree : redirected db a.entityId = false) : ∃ x ∈ candidates a.label at_ db, x.entityId = a.entityId := by
  obtain ⟨e, he⟩ := Option.isSome_iff_exists.1 (h.named a ha)
  exact mem_candidates.2 ⟨a, ha, rfl, hat, rfl, e, he, h.active _ e he, hfree⟩

theorem redirected_iff {id : String} : redirected db id = true ↔ ∃ r ∈ db.redirects.rows, r.sourceEntityId = id := by
  rw [redirected, Option.isSome_iff_exists]
  simp [Keyed.row_iff]

theorem left_not_redirected (h : Sound db) {id : String} {p : EntityMergeProposal}
    (hp : db.proposals.row id = some p) (hstatus : p.status = .accepted) : redirected db p.leftEntityId = false := by
  have hone := h.backed id p hp
  rw [if_pos hstatus] at hone
  obtain ⟨r, hr⟩ := List.length_eq_one_iff.1 hone
  have hmem : r ∈ redirectsOf id db := hr ▸ List.mem_singleton_self r
  obtain ⟨hr, hid⟩ := List.mem_filter.1 hmem
  obtain ⟨q, hq, -, hsource, htarget⟩ := h.linked r hr
  rw [of_decide_eq_true hid, hp] at hq
  cases hq
  rw [Bool.eq_false_iff]
  intro hred
  obtain ⟨r', hr', hsource'⟩ := redirected_iff.1 hred
  obtain rfl := h.apart p.leftEntityId r hr r' hr' (.inr htarget.symm) (.inl hsource'.symm)
  exact db.redirects.checked r hr (hsource'.trans htarget.symm)

theorem aliases_exec (c : EntityCall) (ha : a ∈ db.aliases.rows) : a ∈ (exec db c).2.aliases.rows := by
  rcases exec_cases db c with ⟨e, hexec⟩ | ⟨answer, db', hexec, heffect⟩
  · rwa [hexec]
  · rw [hexec]
    cases heffect with
    | aliased guard entity fresh rows =>
      rw [rows]
      exact List.mem_append_left _ ha
    | created | proposed | accepted | rejected | reversed => exact ha

theorem aliases_after {calls : List EntityCall} (ha : a ∈ db.aliases.rows) :
    a ∈ (Calls.after exec db calls).aliases.rows :=
  Calls.after_invariant (I := fun s : EntityDb => a ∈ s.aliases.rows) (fun _ c h => aliases_exec c h) ha calls

/-! ## A run without one merge -/

def kept : EntityDb → List EntityCall → List EntityCall
  | _, [] => []
  | db, c :: calls => if (exec db c).1.isOk then c :: kept (exec db c).2 calls else kept db calls

structure Without (id : String) (db db₀ : EntityDb) : Prop where
  entities : db₀.entities = db.entities
  aliases : db₀.aliases = db.aliases
  proposals : ∀ k, k ≠ id → db₀.proposals.row k = db.proposals.row k
  merge : ∃ p, db.proposals.row id = some p ∧ p.status = .accepted
  pending : (db₀.proposals.row id).isSome = true
  redirects : db₀.redirects.rows = db.redirects.rows.filter (fun r => !decide (r.proposalId = id))
  decisions : ∀ k, db.decisions.row k = none → db₀.decisions.row k = none

variable {id : String} {db₀ : EntityDb}

theorem exists_inserted {ρ : Type} {key : ρ → String} {ok : ρ → Prop} (t : Keyed key ok) {r : ρ} (hr : ok r)
    (h : t.row (key r) = none) : ∃ t' : Keyed key ok, t'.rows = t.rows ++ [r] :=
  ⟨t.insertOrIgnore r hr, Keyed.rows_insertOrIgnore hr (by rw [h]; rfl)⟩

theorem row_none_inserted {ρ : Type} {key : ρ → String} {ok : ρ → Prop} {t t' u u' : Keyed key ok} {r : ρ}
    (ht : t'.rows = t.rows ++ [r]) (hu : u'.rows = u.rows ++ [r]) (hfresh : t.row (key r) = none)
    (hfresh' : u.row (key r) = none) (h : ∀ k, t.row k = none → u.row k = none) (k : String)
    (hk : t'.row k = none) : u'.row k = none := by
  rw [row_inserted ht hfresh, Option.or_eq_none_iff] at hk
  rw [row_inserted hu hfresh', Option.or_eq_none_iff]
  exact ⟨h k hk.1, hk.2⟩

theorem Without.accepted_ne (h : Without id db db₀) {k : String} {p : EntityMergeProposal}
    (hp : db.proposals.row k = some p) (hstatus : p.status ≠ .accepted) : k ≠ id := by
  rintro rfl
  obtain ⟨q, hq, haccepted⟩ := h.merge
  rw [Option.mem_unique hp hq] at hstatus
  exact hstatus haccepted

theorem Without.effect (h : Without id db db₀) (he : Effect db c db')
    (hstill : ∃ p, db'.proposals.row id = some p ∧ p.status = .accepted) :
    ∃ db₀', Effect db₀ c db₀' ∧ Without id db' db₀' := by
  have hupdate : ∀ {change : Change EntityMergeProposal.proposalId (fun p => p.leftEntityId ≠ p.rightEntityId)} {k j},
      j ≠ id → (db₀.proposals.update k change).row j = (db.proposals.update k change).row j := by
    intro change k j hj
    by_cases hk : j = k
    · subst hk
      rw [Keyed.row_update_self, Keyed.row_update_self, h.proposals j hj]
    · rw [Keyed.row_update_of_ne _ hk, Keyed.row_update_of_ne _ hk, h.proposals j hj]
  cases he with
  | @created kind label now k entities guard fresh rows =>
    refine ⟨{ db₀ with entities := entities }, .created guard (h.entities ▸ fresh) (h.entities ▸ rows), ?_⟩
    exact { h with entities := rfl }
  | @aliased _ _ _ _ _ _ k aliases guard entity fresh rows =>
    refine ⟨{ db₀ with aliases := aliases }, .aliased guard (h.entities ▸ entity) (h.aliases ▸ fresh)
      (h.aliases ▸ rows), ?_⟩
    exact { h with aliases := rfl }
  | @proposed left right evidenceRef actorId now k proposals guard entities fresh rows =>
    have hk : k ≠ id := by
      rintro rfl
      obtain ⟨p, hp, -⟩ := h.merge
      rw [fresh] at hp
      cases hp
    have hfresh : db₀.proposals.row k = none := (h.proposals k hk).trans fresh
    obtain ⟨proposals₀, hrows⟩ := exists_inserted db₀.proposals
      (r := ⟨k, left, right, .proposed, evidenceRef, some actorId, now, none, none⟩) (fun heq => guard (.inl heq)) hfresh
    refine ⟨{ db₀ with proposals := proposals₀ }, .proposed guard (h.entities ▸ entities) hfresh hrows, ?_⟩
    refine { h with proposals := fun j hj => ?_, merge := hstill, pending := ?_ }
    · rw [row_inserted hrows hfresh, row_inserted rows fresh, h.proposals j hj]
    · rw [row_inserted hrows hfresh, Option.isSome_or, h.pending, Bool.true_or]
  | @accepted k actorId reason now decisionId p redirects decisions signed pending status free rows fresh decided =>
    have hk := h.accepted_ne pending (by rw [status]; nofun)
    have hfree : involved p.leftEntityId p.rightEntityId db₀ = [] := by
      rw [involved, h.redirects, List.filter_filter, List.filter_eq_nil_iff]
      intro r hr hin
      rw [Bool.and_eq_true] at hin
      exact List.filter_eq_nil_iff.1 free r hr hin.1
    obtain ⟨redirects₀, hrows⟩ := exists_inserted db₀.redirects (r := ⟨p.rightEntityId, p.leftEntityId, k⟩)
      (ne_of_row pending) (row_right_of_free hfree)
    have hdecision := h.decisions decisionId fresh
    obtain ⟨decisions₀, hdecided⟩ := exists_inserted db₀.decisions
      (r := ⟨decisionId, k, actorId, .accepted, reason, now⟩) trivial hdecision
    refine ⟨_, .accepted signed ((h.proposals k hk).trans pending) status hfree hrows hdecision hdecided, ?_⟩
    refine ⟨h.entities, h.aliases, fun j hj => hupdate hj, hstill, Keyed.row_isSome_update _ h.pending, ?_,
      row_none_inserted decided hdecided fresh hdecision h.decisions⟩
    rw [hrows, rows, h.redirects, List.filter_append]
    simp [hk]
  | @rejected k actorId reason now decisionId p decisions signed pending status fresh decided =>
    have hk := h.accepted_ne pending (by rw [status]; nofun)
    have hdecision := h.decisions decisionId fresh
    obtain ⟨decisions₀, hdecided⟩ := exists_inserted db₀.decisions
      (r := ⟨decisionId, k, actorId, .rejected, reason, now⟩) trivial hdecision
    refine ⟨_, .rejected signed ((h.proposals k hk).trans pending) status hdecision hdecided, ?_⟩
    exact ⟨h.entities, h.aliases, fun j hj => hupdate hj, hstill, Keyed.row_isSome_update _ h.pending, h.redirects,
      row_none_inserted decided hdecided fresh hdecision h.decisions⟩
  | @reversed k actorId reason now decisionId p decisions signed pending status one fresh decided =>
    have hk : k ≠ id := by
      rintro rfl
      obtain ⟨q, hq, haccepted⟩ := hstill
      rw [row_decide pending status] at hq
      rw [← Option.some.inj hq] at haccepted
      cases haccepted
    have hdecision := h.decisions decisionId fresh
    obtain ⟨decisions₀, hdecided⟩ := exists_inserted db₀.decisions
      (r := ⟨decisionId, k, actorId, .reversed, reason, now⟩) trivial hdecision
    have hof : redirectsOf k db₀ = redirectsOf k db := by
      rw [redirectsOf, h.redirects, List.filter_filter, redirectsOf]
      refine List.filter_congr fun r _ => ?_
      by_cases hr : r.proposalId = k
      · simp [hr, hk]
      · simp [hr]
    refine ⟨_, .reversed signed ((h.proposals k hk).trans pending) status (hof ▸ one) hdecision hdecided, ?_⟩
    refine ⟨h.entities, h.aliases, fun j hj => hupdate hj, hstill, Keyed.row_isSome_update _ h.pending, ?_,
      row_none_inserted decided hdecided fresh hdecision h.decisions⟩
    simp only [Keyed.removeAll, h.redirects, List.filter_filter]
    exact List.filter_congr fun r _ => Bool.and_comm _ _

theorem Without.after {calls : List EntityCall} (h : Without id db db₀)
    (hlast : ∃ p, (Calls.after exec db calls).proposals.row id = some p ∧ p.status = .accepted) :
    Without id (Calls.after exec db calls) (Calls.after exec db₀ (kept db calls)) := by
  induction calls generalizing db db₀ with
  | nil => exact h
  | cons c calls ih =>
    rw [Calls.after_cons] at hlast ⊢
    rcases exec_cases db c with ⟨e, hexec⟩ | ⟨answer, db', hexec, heffect⟩
    · rw [hexec] at hlast ⊢
      rw [kept, hexec]
      exact ih h hlast
    · rw [hexec] at hlast ⊢
      -- a merge reversed here would not be in force at the end
      have hstill : ∃ p, db'.proposals.row id = some p ∧ p.status = .accepted := by
        obtain ⟨p, hp, hstatus⟩ := h.merge
        obtain ⟨p', hp', hmoves, -⟩ := heffect.proposal hp
        rw [hstatus] at hmoves
        rcases hmoves with hsame | ⟨hcase, -⟩ | ⟨-, hreversed⟩ | ⟨hcase, -⟩
        · exact ⟨p', hp', hsame⟩
        · cases hcase
        · obtain ⟨q, hq, -, -, hstays, -⟩ := @proposal_after _ calls _ _ hp'
          obtain ⟨q', hq', haccepted⟩ := hlast
          rw [← Option.mem_unique hq hq', hstays hreversed] at haccepted
          cases haccepted
        · cases hcase
      obtain ⟨db₀', heffect₀, hwithout⟩ := h.effect heffect hstill
      obtain ⟨answer₀, hexec₀⟩ := heffect₀.exec
      rw [kept, hexec]
      simp only [Except.isOk, Except.toBool, if_true, Calls.after_cons, hexec₀]
      exact ih hwithout hlast

/-! ## The laws -/

/-- **A name of the source is a name of the target**, at all times before. -/
def Covered (db : EntityDb) (source target : String) (now : Int) : Prop :=
  ∀ a ∈ db.aliases.rows, a.entityId = source → ∀ at_, at_ < now → a.validAt at_ = true →
    ∃ b ∈ db.aliases.rows, b.entityId = target ∧ b.label = a.label ∧ b.validAt at_ = true

structure Acceptable (db : EntityDb) (proposalId actorId reason decisionId : String) (p : EntityMergeProposal) :
    Prop where
  signed : Signed actorId reason
  pending : db.proposals.row proposalId = some p
  status : p.status = .proposed
  free : involved p.leftEntityId p.rightEntityId db = []
  fresh : db.decisions.row decisionId = none

/-- **The calls that keep to the laws**: a merge that is accepted redirects no entity that has a name of its own. -/
def Clear (db : EntityDb) : EntityCall → Prop
  | .acceptMerge proposalId actorId reason now decisionId =>
    ∀ p, Acceptable db proposalId actorId reason decisionId p → Covered db p.rightEntityId p.leftEntityId now
  | _ => True

abbrev run (calls : List EntityCall) : EntityDb := Calls.after exec .empty calls

/-- **What merges promise** of a run. -/
structure EntityLaws (calls : List EntityCall) : Prop where
  apart : ∀ pre post, calls = pre ++ post → ∀ e, ∀ r ∈ (run pre).redirects.rows, ∀ r' ∈ (run pre).redirects.rows,
    Involves r e → Involves r' e → r = r'
  moves : ∀ pre c post id, calls = pre ++ c :: post →
    (∀ p, (run pre).proposals.row id = some p →
      ∃ p', (run (pre ++ [c])).proposals.row id = some p' ∧ Moves p.status p'.status) ∧
    ((run pre).proposals.row id = none →
      ∀ p', (run (pre ++ [c])).proposals.row id = some p' → p'.status = .proposed)
  backed : ∀ pre post, calls = pre ++ post →
    (∀ r ∈ (run pre).redirects.rows, ((run pre).proposals.row r.proposalId).isSome = true) ∧
    ∀ id p, (run pre).proposals.row id = some p →
      (redirectsOf id (run pre)).length = if p.status = .accepted then 1 else 0
  named : ∀ pre id actorId reason now decisionId mid post p q,
    calls = pre ++ .acceptMerge id actorId reason now decisionId :: (mid ++ post) →
    (run pre).proposals.row id = some p →
    (exec (run pre) (.acceptMerge id actorId reason now decisionId)).1.isOk = true →
    (run (pre ++ .acceptMerge id actorId reason now decisionId :: mid)).proposals.row id = some q →
    q.status = .accepted →
    ∀ label at_, at_ < now →
      (∃ x ∈ candidates label at_ (run pre), x.entityId = p.leftEntityId ∨ x.entityId = p.rightEntityId) →
      ∃ x ∈ candidates label at_ (run (pre ++ .acceptMerge id actorId reason now decisionId :: mid)),
        x.entityId = p.leftEntityId
  undone : ∀ pre id actorId reason now decisionId mid actorId' reason' now' decisionId' post,
    calls = pre ++ .acceptMerge id actorId reason now decisionId ::
      (mid ++ .reverseMerge id actorId' reason' now' decisionId' :: post) →
    (exec (run pre) (.acceptMerge id actorId reason now decisionId)).1.isOk = true →
    (exec (run (pre ++ .acceptMerge id actorId reason now decisionId :: mid))
      (.reverseMerge id actorId' reason' now' decisionId')).1.isOk = true →
    ∀ label at_,
      candidates label at_ (run (pre ++ .acceptMerge id actorId reason now decisionId ::
        (mid ++ [.reverseMerge id actorId' reason' now' decisionId']))) =
      candidates label at_ (run (pre ++ kept (run (pre ++ [.acceptMerge id actorId reason now decisionId])) mid))
  refused : ∀ pre c post e, calls = pre ++ c :: post → (exec (run pre) c).1 = .error e → run (pre ++ [c]) = run pre

theorem exec_of_isOk (h : (exec db c).1.isOk = true) : Effect db c (exec db c).2 := by
  rcases exec_cases db c with ⟨e, hexec⟩ | ⟨answer, db', hexec, heffect⟩
  · rw [hexec] at h
    cases h
  · rwa [hexec]

variable {actorId reason : String}

theorem isOk_accept_iff {now : Int} {decisionId : String} {p : EntityMergeProposal}
    (hp : db.proposals.row id = some p) :
    (exec db (.acceptMerge id actorId reason now decisionId)).1.isOk = true ↔
      Acceptable db id actorId reason decisionId p := by
  constructor
  · intro h
    have heffect := exec_of_isOk h
    generalize (exec db (.acceptMerge id actorId reason now decisionId)).2 = db' at heffect
    cases heffect with
    | accepted signed pending status free rows fresh decided =>
      cases hp.symm.trans pending
      exact ⟨signed, hp, status, free, fresh⟩
  · rintro ⟨signed, pending, status, free, fresh⟩
    obtain ⟨redirects, hrows⟩ := exists_inserted db.redirects (r := ⟨p.rightEntityId, p.leftEntityId, id⟩)
      (ne_of_row pending) (row_right_of_free free)
    obtain ⟨decisions, hdecided⟩ := exists_inserted db.decisions
      (r := ⟨decisionId, id, actorId, .accepted, reason, now⟩) trivial fresh
    have heffect : Effect db (.acceptMerge id actorId reason now decisionId) _ :=
      .accepted signed pending status free hrows fresh hdecided
    obtain ⟨answer, hexec⟩ := heffect.exec
    rw [hexec]
    rfl

theorem without_accept (h : Sound db) {now : Int} {decisionId : String}
    (hok : (exec db (.acceptMerge id actorId reason now decisionId)).1.isOk = true) :
    Without id (exec db (.acceptMerge id actorId reason now decisionId)).2 db := by
  have heffect := exec_of_isOk hok
  generalize (exec db (.acceptMerge id actorId reason now decisionId)).2 = db' at heffect
  cases heffect with
  | @accepted _ _ _ _ _ p redirects decisions signed pending status free rows fresh decided =>
    refine ⟨rfl, rfl, fun k hk => (Keyed.row_update_of_ne _ hk _).symm, ⟨_, row_decide pending status, rfl⟩,
      by rw [pending]; rfl, ?_, fun k hk => ?_⟩
    · rw [rows, List.filter_append, List.filter_eq_self.2]
      · simp
      · intro r hr
        rw [Bool.not_eq_true', decide_eq_false_iff_not]
        rintro rfl
        obtain ⟨q, hq, haccepted, -⟩ := h.linked r hr
        rw [← Option.mem_unique pending hq, status] at haccepted
        cases haccepted
    · rw [row_inserted decided fresh, Option.or_eq_none_iff] at hk
      exact hk.1

theorem candidates_congr (hentities : db₀.entities = db.entities) (haliases : db₀.aliases = db.aliases)
    (hredirects : db₀.redirects.rows = db.redirects.rows) (label : String) (at_ : Int) :
    candidates label at_ db₀ = candidates label at_ db := by
  have hredirected : ∀ k, redirected db₀ k = redirected db k := by
    intro k
    rw [redirected, redirected, Keyed.row, Keyed.row, hredirects]
  have hcandidate : candidateOf db₀ = candidateOf db := by
    funext a
    simp [candidateOf, hentities, hredirected]
  rw [candidates, candidates, haliases, hcandidate]

theorem name_survives (h : Sound db) {now : Int} {decisionId : String} {mid : List EntityCall}
    {p q : EntityMergeProposal} (hp : db.proposals.row id = some p)
    (hcovered : Covered db p.rightEntityId p.leftEntityId now)
    (hq : (Calls.after exec db (.acceptMerge id actorId reason now decisionId :: mid)).proposals.row id = some q)
    (hstatus : q.status = .accepted) {label : String} (hat : at_ < now)
    (hnamed : ∃ x ∈ candidates label at_ db, x.entityId = p.leftEntityId ∨ x.entityId = p.rightEntityId) :
    ∃ x ∈ candidates label at_ (Calls.after exec db (.acceptMerge id actorId reason now decisionId :: mid)),
      x.entityId = p.leftEntityId := by
  have hsound := Calls.after_invariant (fun _ c h => h.exec c) h (.acceptMerge id actorId reason now decisionId :: mid)
  obtain ⟨q', hq', hleft, -, -⟩ := @proposal_after _ (.acceptMerge id actorId reason now decisionId :: mid) _ _ hp
  cases hq'.symm.trans hq
  -- one of the names is the left entity's own
  obtain ⟨b, hb, hbid, rfl, hbat⟩ : ∃ b ∈ db.aliases.rows, b.entityId = p.leftEntityId ∧ b.label = label ∧
      b.validAt at_ = true := by
    obtain ⟨x, hx, hid | hid⟩ := hnamed
    · obtain ⟨a, ha, hlabel, hvalid, haid, -⟩ := mem_candidates.1 ⟨x, hx, rfl⟩
      exact ⟨a, ha, haid.trans hid, hlabel, hvalid⟩
    · obtain ⟨a, ha, hlabel, hvalid, haid, -⟩ := mem_candidates.1 ⟨x, hx, rfl⟩
      obtain ⟨b, hb, hbid, hblabel, hbat⟩ := hcovered a ha (haid.trans hid) at_ hat hvalid
      exact ⟨b, hb, hbid, hblabel.trans hlabel, hbat⟩
  have hfree := left_not_redirected hsound hq hstatus
  rw [hleft] at hfree
  rw [← hbid] at hfree ⊢
  exact candidate_of_alias hsound (aliases_after hb) hbat hfree

/-- **Merges keep their laws in exactly the runs of clear calls.** -/
theorem entityLaws_iff (calls : List EntityCall) : EntityLaws calls ↔ Calls.Guarded exec Clear .empty calls := by
  constructor
  · intro h pre c post hcalls
    cases c with
    | acceptMerge id actorId reason now decisionId =>
      intro p hacceptable a ha haid at_ hat hvalid
      have hsound := sound_after pre
      have hok := (@isOk_accept_iff _ _ _ _ now _ _ hacceptable.pending).2 hacceptable
      have hwithout := without_accept hsound hok
      -- before the merge the name finds the right entity
      have hfree : redirected (run pre) a.entityId = false := by
        rw [haid, redirected, row_right_of_free hacceptable.free]
        rfl
      obtain ⟨x, hx, hxid⟩ := candidate_of_alias hsound ha hvalid hfree
      obtain ⟨q, hq, hstatus⟩ := hwithout.merge
      have hq' : (run (pre ++ [.acceptMerge id actorId reason now decisionId])).proposals.row id = some q := by
        rw [run, Calls.after_snoc]
        exact hq
      obtain ⟨y, hy, hyid⟩ := h.named pre id actorId reason now decisionId [] post p q hcalls hacceptable.pending hok hq'
        hstatus a.label at_ hat ⟨x, hx, .inr (hxid.trans haid)⟩
      obtain ⟨b, hb, hlabel, hbat, hbid, -⟩ := mem_candidates.1 ⟨y, hy, hyid⟩
      rw [run, Calls.after_snoc, ← hwithout.aliases] at hb
      exact ⟨b, hb, hbid, hlabel, hbat⟩
    | create | addAlias | proposeMerge | rejectMerge | reverseMerge => exact trivial
  · intro h
    refine ⟨fun pre _ _ => (sound_after pre).apart, fun pre c _ id _ => ⟨fun p hp => ?_, fun hp p' hp' => ?_⟩,
      fun pre _ _ => ⟨fun r hr => ?_, (sound_after pre).backed⟩, ?_, ?_, ?_⟩
    · obtain ⟨p', hp', hmoves, -⟩ := exec_proposal c hp
      rw [run, Calls.after_snoc]
      exact ⟨p', hp', hmoves⟩
    · rw [run, Calls.after_snoc] at hp'
      rcases exec_cases (run pre) c with ⟨e, hexec⟩ | ⟨answer, db', hexec, heffect⟩
      · rw [hexec, hp] at hp'
        cases hp'
      · rw [hexec] at hp'
        exact heffect.new_proposal hp hp'
    · obtain ⟨p, hp, -⟩ := (sound_after pre).linked r hr
      rw [hp]
      rfl
    · intro pre id actorId reason now decisionId mid post p q hcalls hp hok hq hstatus label at_ hat hnamed
      rw [run, Calls.after_append] at hq ⊢
      exact name_survives (sound_after pre) hp (h pre _ _ hcalls p ((isOk_accept_iff hp).1 hok)) hq hstatus hat hnamed
    · intro pre id actorId reason now decisionId mid actorId' reason' now' decisionId' post _ haccept hreverse label at_
      have hwithout := without_accept (sound_after pre) haccept
      have heffect := exec_of_isOk hreverse
      simp only [run, Calls.after_append, Calls.after_cons, Calls.after_nil] at heffect ⊢
      generalize hdb' : (exec (Calls.after exec (exec (Calls.after exec .empty pre)
        (.acceptMerge id actorId reason now decisionId)).2 mid)
        (.reverseMerge id actorId' reason' now' decisionId')).2 = db' at heffect ⊢
      cases heffect with
      | @reversed _ _ _ _ _ p decisions signed pending status one fresh decided =>
        have hlast := @Without.after _ _ _ mid hwithout ⟨p, pending, status⟩
        refine (candidates_congr ?_ ?_ ?_ label at_).symm
        · exact hlast.entities
        · exact hlast.aliases
        · exact hlast.redirects
    · intro pre c post e _ herr
      rw [run, Calls.after_snoc]
      rcases exec_cases (run pre) c with ⟨e, hexec⟩ | ⟨answer, db', hexec, heffect⟩
      · rw [hexec]
      · rw [hexec] at herr
        cases herr

/-! ## The name that is lost -/

def twoPeople : List EntityCall :=
  [.create "person" "Jordan A" 1 "a", .create "person" "Jordan B" 1 "b",
    .addAlias "a" "Jordan" 1 none "event:1" false "x", .addAlias "b" "Jojo" 1 none "event:2" false "y",
    .proposeMerge "a" "b" "event:9" "controller-1" 3 "p"]

/-- **A name that only the right entity has finds nothing** while the merge is in force. -/
theorem jojo_is_lost : ¬ EntityLaws (twoPeople ++ [.acceptMerge "p" "controller-1" "same person verified" 4 "d"]) := by
  intro h
  have hp : (run twoPeople).proposals.row "p" =
      some ⟨"p", "a", "b", .proposed, "event:9", some "controller-1", 3, none, none⟩ := by decide
  have hq : (run (twoPeople ++ [.acceptMerge "p" "controller-1" "same person verified" 4 "d"])).proposals.row "p" =
      some ⟨"p", "a", "b", .accepted, "event:9", some "controller-1", 3, some "controller-1", some 4⟩ := by decide
  have hbefore : candidates "Jojo" 2 (run twoPeople) = [⟨"b", "person", "Jordan B", "event:2"⟩] := by decide
  have hafter : candidates "Jojo" 2
      (run (twoPeople ++ [.acceptMerge "p" "controller-1" "same person verified" 4 "d"])) = [] := by decide
  obtain ⟨x, hx, -⟩ := h.named twoPeople "p" "controller-1" "same person verified" 4 "d" [] [] _ _ rfl hp (by decide) hq
    rfl "Jojo" 2 (by decide) ⟨_, hbefore ▸ List.mem_singleton_self _, .inr rfl⟩
  rw [hafter] at hx
  cases hx

end EntityDb

end Execlaw
