import Execlaw.Closure
import Execlaw.Json
import Execlaw.MemoryJobs
import Mathlib.Algebra.Order.Ring.Rat
/-!
# MemoryAssertions — evidence-backed memory (`core/src/memory_assertions.rs`, migrations 0020, 0046 and 0068)

An assertion is written once and supported by evidence, a reference to an event of the log.  A later assertion may
supersede it; a Controller may retract it or write a correction; deleting a source event hides what rests on it behind
tombstones.  `memory_current_projection` names the assertion that stands for each key.  A `MemoryDb` holds the tables
with their foreign keys and the condition the projection's triggers keep.
-/
namespace Execlaw

open Table Closure

inductive MemoryKind | profile | semantic | episodic | procedural | summary | decision
deriving DecidableEq

inductive AssertionStatus | proposed | approved | rejected | retracted
deriving DecidableEq

inductive EvidenceKind | directQuote | toolResult | operatorCorrection | derived
deriving DecidableEq

/-! ## The tables -/

/-- `MemoryAssertion` and `NewMemoryAssertion`, with the columns of `memory_assertions`. -/
structure MemoryAssertion where
  assertionId : String
  scope : String
  trustClass : String
  kind : MemoryKind
  subject : String
  predicate : String
  object : Json
  confidence : ℚ
  status : AssertionStatus
  observedFrom : Int
  observedTo : Option Int
  validFrom : Int
  validTo : Option Int
  supersedesId : Option String
  extractionRunId : String
  createdEventSeq : Int
  createdAt : Int

namespace MemoryAssertion

structure Ok (a : MemoryAssertion) : Prop where
  confidence : 0 ≤ a.confidence ∧ a.confidence ≤ 1
  eventSeq : 0 < a.createdEventSeq
  observed : a.observedTo.all (fun t => decide (a.observedFrom ≤ t)) = true
  valid : a.validTo.all (fun t => decide (a.validFrom < t)) = true
  supersedes : a.supersedesId ≠ some a.assertionId

instance (a : MemoryAssertion) : Decidable a.Ok :=
  decidable_of_iff ((0 ≤ a.confidence ∧ a.confidence ≤ 1) ∧ 0 < a.createdEventSeq ∧
      a.observedTo.all (fun t => decide (a.observedFrom ≤ t)) = true ∧
      a.validTo.all (fun t => decide (a.validFrom < t)) = true ∧ a.supersedesId ≠ some a.assertionId)
    ⟨fun h => ⟨h.1, h.2.1, h.2.2.1, h.2.2.2.1, h.2.2.2.2⟩,
      fun h => ⟨h.confidence, h.eventSeq, h.observed, h.valid, h.supersedes⟩⟩

def validAt (a : MemoryAssertion) (now : Int) : Bool :=
  decide (a.validFrom ≤ now) && a.validTo.all (fun t => decide (now < t))

end MemoryAssertion

/-- `MemoryEvidenceRecord` and `NewMemoryEvidence`, with the columns of `memory_evidence`. -/
structure MemoryEvidenceRecord where
  evidenceId : String
  assertionId : String
  conversationId : String
  eventSeq : Int
  payloadPath : String
  quoteHash : String
  evidenceKind : EvidenceKind
  createdAt : Int

namespace MemoryEvidenceRecord

def event (e : MemoryEvidenceRecord) : String × Int := (e.conversationId, e.eventSeq)

def Ok (e : MemoryEvidenceRecord) : Prop := 0 < e.eventSeq ∧ e.quoteHash.length = 64

instance (e : MemoryEvidenceRecord) : Decidable e.Ok := inferInstanceAs (Decidable (_ ∧ _))

def identity (e : MemoryEvidenceRecord) : String × String × Int × String × String :=
  (e.assertionId, e.conversationId, e.eventSeq, e.payloadPath, e.quoteHash)

end MemoryEvidenceRecord

inductive MemoryTier | hot | warm | cold
deriving DecidableEq

structure ProjectionRow where
  scope : String
  trustClass : String
  key : String
  assertionId : String
  tier : MemoryTier := .warm
  hits : Nat := 0
  lastUsedAt : Option Int := none
  projectedAt : Int

def ProjectionRow.place (p : ProjectionRow) : String × String × String := (p.scope, p.trustClass, p.key)

/-- The `DO UPDATE SET` of a projection: the tier and the counters of the row stay. -/
def ProjectionRow.reproject (row : ProjectionRow) : Change ProjectionRow.place (fun _ => True) where
  takes := fun _ => true
  set := fun p => { p with assertionId := row.assertionId, projectedAt := row.projectedAt }
  key_set := fun _ => rfl
  keeps_ok := fun _ _ _ => trivial

inductive ReviewDecision | retracted | corrected
deriving DecidableEq

structure AssertionReview where
  reviewId : String
  assertionId : String
  conversationId : String
  eventSeq : Int
  reviewerId : String
  decision : ReviewDecision
  reason : String
  createdAt : Int

namespace AssertionReview

def event (r : AssertionReview) : String × Int := (r.conversationId, r.eventSeq)

def Ok (r : AssertionReview) : Prop := 1 ≤ r.reason.length ∧ r.reason.length ≤ 2000

instance (r : AssertionReview) : Decidable r.Ok := inferInstanceAs (Decidable (_ ∧ _))

end AssertionReview

inductive TombstoneKind | sourceEvent | assertion | evidence
deriving DecidableEq

structure PrivacyTombstone where
  targetKind : TombstoneKind
  targetId : String
  assertionId : Option String
  sourceConversationId : String
  sourceEventSeq : Int
  requestId : String
  requestedBy : String
  requestedAt : Int

def PrivacyTombstone.target (t : PrivacyTombstone) : TombstoneKind × String := (t.targetKind, t.targetId)

def PrivacyTombstone.Ok (t : PrivacyTombstone) : Prop := 0 < t.sourceEventSeq

instance (t : PrivacyTombstone) : Decidable t.Ok := inferInstanceAs (Decidable (_ < _))

def EventRow.place (e : EventRow) : String × Int := (e.conversationId, e.seq)

/-! ## What the recursive queries walk -/

namespace Lineage

def ancestorEdges (assertions : List MemoryAssertion) : List (String × String) :=
  assertions.filterMap fun a => a.supersedesId.map fun p => (a.assertionId, p)

def childEdges (assertions : List MemoryAssertion) : List (String × String) :=
  assertions.filterMap fun a => a.supersedesId.map fun p => (p, a.assertionId)

def summaryEdges (assertions : List MemoryAssertion) (evidence : List MemoryEvidenceRecord) :
    List (String × String) :=
  evidence.flatMap fun derived =>
    if derived.evidenceKind = .derived ∧
        assertions.any (fun d => d.assertionId == derived.assertionId && d.kind == .summary) = true then
      (evidence.filter (fun source => source.event == derived.event)).map fun source =>
        (source.assertionId, derived.assertionId)
    else []

def edges (assertions : List MemoryAssertion) (evidence : List MemoryEvidenceRecord) : List (String × String) :=
  ancestorEdges assertions ++ summaryEdges assertions evidence

def retractions (reviews : List AssertionReview) : List String :=
  (reviews.filter (fun r => r.decision == .retracted)).map AssertionReview.assertionId

def retracted (assertions : List MemoryAssertion) (evidence : List MemoryEvidenceRecord)
    (reviews : List AssertionReview) : List String :=
  closure (edges assertions evidence) (retractions reviews)

end Lineage

structure MemoryTables where
  events : Keyed EventRow.place (fun _ => True)
  assertions : Keyed MemoryAssertion.assertionId MemoryAssertion.Ok
  evidence : Keyed MemoryEvidenceRecord.evidenceId MemoryEvidenceRecord.Ok
  projection : Keyed ProjectionRow.place (fun _ => True)
  reviews : Keyed AssertionReview.reviewId AssertionReview.Ok
  tombstones : Keyed PrivacyTombstone.target PrivacyTombstone.Ok

namespace MemoryTables

def stored (t : MemoryTables) (assertionId : String) : Bool := (t.assertions.row assertionId).isSome

def inLog (t : MemoryTables) (event : String × Int) : Bool := (t.events.row event).isSome

structure Linked (t : MemoryTables) : Prop where
  superseded : ∀ a ∈ t.assertions.rows, a.supersedesId.all t.stored = true
  evidence : ∀ e ∈ t.evidence.rows, t.stored e.assertionId = true ∧ t.inLog e.event = true
  reviewed : ∀ r ∈ t.reviews.rows, t.stored r.assertionId = true ∧ t.inLog r.event = true
  projected : ∀ p ∈ t.projection.rows, ∃ a, t.assertions.row p.assertionId = some a ∧ a.scope = p.scope ∧
    a.trustClass = p.trustClass ∧ a.status = .approved

variable (t : MemoryTables)

def tombstoned (kind : TombstoneKind) (id : String) : Bool := (t.tombstones.row (kind, id)).isSome

def evidenced (assertionId : String) : Bool := t.evidence.rows.any (fun e => e.assertionId == assertionId)

def repeats (e : MemoryEvidenceRecord) : Bool := t.evidence.rows.any (fun r => r.identity == e.identity)

def ancestorEdges : List (String × String) := Lineage.ancestorEdges t.assertions.rows

def childEdges : List (String × String) := Lineage.childEdges t.assertions.rows

def lineageEdges : List (String × String) := Lineage.edges t.assertions.rows t.evidence.rows

def retractions : List String := Lineage.retractions t.reviews.rows

/-- The lineage the two `reject_retracted` triggers compute: retracted assertions and what they supersede. -/
def retractedAncestry : List String := closure t.ancestorEdges t.retractions

/-- The lineage `current_ranked` computes: with the summaries derived from any of it. -/
def retractedLineage : List String := Lineage.retracted t.assertions.rows t.evidence.rows t.reviews.rows

variable {t}

theorem Linked.insertEvent (h : t.Linked) (e : EventRow) :
    { t with events := t.events.insertOrIgnore e trivial : MemoryTables }.Linked where
  superseded := h.superseded
  evidence := fun x hx => ⟨(h.evidence x hx).1, Keyed.row_isSome_insertOrIgnore trivial (h.evidence x hx).2⟩
  reviewed := fun r hr => ⟨(h.reviewed r hr).1, Keyed.row_isSome_insertOrIgnore trivial (h.reviewed r hr).2⟩
  projected := h.projected

theorem Linked.insertAssertion (h : t.Linked) (a : MemoryAssertion) (hok : a.Ok)
    (hfk : a.supersedesId.all t.stored = true) :
    { t with assertions := t.assertions.insertOrIgnore a hok : MemoryTables }.Linked where
  superseded := by
    intro b hb
    have hmono : ∀ {o : Option String}, o.all t.stored = true →
        o.all (fun id => ((t.assertions.insertOrIgnore a hok).row id).isSome) = true := by
      intro o ho
      cases o with
      | none => rfl
      | some id => exact Keyed.row_isSome_insertOrIgnore hok ho
    rcases Keyed.mem_insertOrIgnore (show b ∈ (t.assertions.insertOrIgnore a hok).rows from hb) with hb | rfl
    · exact hmono (h.superseded b hb)
    · exact hmono hfk
  evidence := fun e he => ⟨Keyed.row_isSome_insertOrIgnore hok (h.evidence e he).1, (h.evidence e he).2⟩
  reviewed := fun r hr => ⟨Keyed.row_isSome_insertOrIgnore hok (h.reviewed r hr).1, (h.reviewed r hr).2⟩
  projected := by
    intro p hp
    obtain ⟨b, hb, hrest⟩ := h.projected p hp
    exact ⟨b, Keyed.row_insertOrIgnore_of_row hok hb, hrest⟩

theorem Linked.insertEvidence (h : t.Linked) (e : MemoryEvidenceRecord) (hok : e.Ok)
    (hfk : t.stored e.assertionId = true ∧ t.inLog e.event = true) :
    { t with evidence := t.evidence.insertOrIgnore e hok : MemoryTables }.Linked where
  superseded := h.superseded
  evidence := by
    intro x hx
    rcases Keyed.mem_insertOrIgnore (show x ∈ (t.evidence.insertOrIgnore e hok).rows from hx) with hx | rfl
    · exact h.evidence x hx
    · exact hfk
  reviewed := h.reviewed
  projected := h.projected

theorem Linked.insertReview (h : t.Linked) (r : AssertionReview) (hok : r.Ok)
    (hfk : t.stored r.assertionId = true ∧ t.inLog r.event = true) :
    { t with reviews := t.reviews.insertOrIgnore r hok : MemoryTables }.Linked where
  superseded := h.superseded
  evidence := h.evidence
  reviewed := by
    intro x hx
    rcases Keyed.mem_insertOrIgnore (show x ∈ (t.reviews.insertOrIgnore r hok).rows from hx) with hx | rfl
    · exact h.reviewed x hx
    · exact hfk
  projected := h.projected

theorem Linked.insertTombstone (h : t.Linked) (s : PrivacyTombstone) (hok : s.Ok) :
    { t with tombstones := t.tombstones.insertOrIgnore s hok : MemoryTables }.Linked :=
  ⟨h.superseded, h.evidence, h.reviewed, h.projected⟩

theorem Linked.unproject (h : t.Linked) (ids : List String) :
    { t with projection := t.projection.removeAll (fun p => ids.contains p.assertionId) : MemoryTables }.Linked where
  superseded := h.superseded
  evidence := h.evidence
  reviewed := h.reviewed
  projected := fun p hp => h.projected p (List.mem_filter.1 hp).1

/-- The first condition of the `requires_approved_evidence` triggers. -/
def approvedFor (t : MemoryTables) (row : ProjectionRow) : Bool :=
  (t.assertions.row row.assertionId).any fun a =>
    a.scope == row.scope && a.trustClass == row.trustClass && a.status == .approved

theorem Linked.project (h : t.Linked) (row : ProjectionRow) (happroved : t.approvedFor row = true) :
    { t with projection := t.projection.upsert row trivial row.reproject : MemoryTables }.Linked where
  superseded := h.superseded
  evidence := h.evidence
  reviewed := h.reviewed
  projected := by
    obtain ⟨a, ha, hfor⟩ := (Option.any_eq_true _ _).1 happroved
    simp only [Bool.and_eq_true, beq_iff_eq] at hfor
    intro p hp
    rcases Keyed.mem_upsert hp with ⟨hp, -⟩ | rfl | ⟨q, -, hplace, rfl⟩
    · exact h.projected p hp
    · exact ⟨a, ha, hfor.1.1, hfor.1.2, hfor.2⟩
    · simp only [ProjectionRow.place, Prod.mk.injEq] at hplace
      exact ⟨a, ha, hfor.1.1.trans hplace.1.symm, hfor.1.2.trans hplace.2.1.symm, hfor.2⟩

end MemoryTables

structure MemoryDb extends MemoryTables where
  linked : toMemoryTables.Linked

namespace MemoryDb

def empty : MemoryDb where
  events := .empty
  assertions := .empty
  evidence := .empty
  projection := .empty
  reviews := .empty
  tombstones := .empty
  linked := ⟨fun _ h => absurd h List.not_mem_nil, fun _ h => absurd h List.not_mem_nil,
    fun _ h => absurd h List.not_mem_nil, fun _ h => absurd h List.not_mem_nil⟩

/-! ## Statements -/

def uniqueFailed (columns : String) : DbError := .sqlite s!"UNIQUE constraint failed: {columns}"

def checkFailed (table : String) : DbError := .sqlite s!"CHECK constraint failed: {table}"

def foreignKeyFailed : DbError := .sqlite "FOREIGN KEY constraint failed"

variable (db : MemoryDb)

def insertEvent (e : EventRow) : Except DbError MemoryDb :=
  if (db.events.row e.place).isSome then .error (uniqueFailed "state_events.conversation_id, state_events.seq")
  else .ok ⟨{ db.toMemoryTables with events := db.events.insertOrIgnore e trivial }, db.linked.insertEvent e⟩

def insertAssertion (a : MemoryAssertion) : Except DbError MemoryDb :=
  if hok : a.Ok then
    if db.stored a.assertionId then .error (uniqueFailed "memory_assertions.assertion_id")
    else if hfk : a.supersedesId.all db.stored = true then
      .ok ⟨{ db.toMemoryTables with assertions := db.assertions.insertOrIgnore a hok },
        db.linked.insertAssertion a hok hfk⟩
    else .error foreignKeyFailed
  else .error (checkFailed "memory_assertions")

def insertOrIgnoreAssertion (a : MemoryAssertion) : Except DbError MemoryDb :=
  if a.Ok ∧ db.stored a.assertionId = false then db.insertAssertion a else .ok db

def insertEvidence (e : MemoryEvidenceRecord) : Except DbError MemoryDb :=
  if hok : e.Ok then
    if (db.evidence.row e.evidenceId).isSome then .error (uniqueFailed "memory_evidence.evidence_id")
    else if db.repeats e then
      .error (uniqueFailed ("memory_evidence.assertion_id, memory_evidence.conversation_id, " ++
        "memory_evidence.event_seq, memory_evidence.payload_path, memory_evidence.quote_hash"))
    else if hfk : db.stored e.assertionId = true ∧ db.inLog e.event = true then
      .ok ⟨{ db.toMemoryTables with evidence := db.evidence.insertOrIgnore e hok }, db.linked.insertEvidence e hok hfk⟩
    else .error foreignKeyFailed
  else .error (checkFailed "memory_evidence")

def insertOrIgnoreEvidence (e : MemoryEvidenceRecord) : Except DbError MemoryDb :=
  if e.Ok ∧ (db.evidence.row e.evidenceId).isSome = false ∧ db.repeats e = false then db.insertEvidence e else .ok db

def insertReview (r : AssertionReview) : Except DbError MemoryDb :=
  if hok : r.Ok then
    if (db.reviews.row r.reviewId).isSome then .error (uniqueFailed "state_memory_assertion_reviews.review_id")
    else if db.reviews.rows.any (fun q => q.event == r.event) then
      .error (uniqueFailed ("state_memory_assertion_reviews.conversation_id, " ++
        "state_memory_assertion_reviews.event_seq"))
    else if hfk : db.stored r.assertionId = true ∧ db.inLog r.event = true then
      .ok ⟨{ db.toMemoryTables with reviews := db.reviews.insertOrIgnore r hok }, db.linked.insertReview r hok hfk⟩
    else .error foreignKeyFailed
  else .error (checkFailed "state_memory_assertion_reviews")

/-- `INSERT OR IGNORE INTO state_memory_privacy_tombstones`, with SQLite's change count. -/
def insertTombstone (t : PrivacyTombstone) : Nat × MemoryDb :=
  if hok : t.Ok then
    (if db.tombstoned t.targetKind t.targetId then 0 else 1,
      ⟨{ db.toMemoryTables with tombstones := db.tombstones.insertOrIgnore t hok }, db.linked.insertTombstone t hok⟩)
  else (0, db)

def unproject (ids : List String) : MemoryDb :=
  ⟨{ db.toMemoryTables with projection := db.projection.removeAll (fun p => ids.contains p.assertionId) },
    db.linked.unproject ids⟩

/-- `INSERT INTO memory_current_projection … ON CONFLICT(scope, trust_class, key) DO UPDATE`, under the triggers of
the table. -/
def project (row : ProjectionRow) : Except DbError MemoryDb :=
  if h : db.approvedFor row = true ∧ db.evidenced row.assertionId = true then
    if db.retractedAncestry.contains row.assertionId then
      .error (.sqlite "retracted memory assertion cannot be projected")
    else if db.tombstoned .assertion row.assertionId then
      .error (.sqlite "privacy-deleted memory assertion cannot be projected")
    else if db.projection.rows.any (fun p => p.place != row.place && p.assertionId == row.assertionId) then
      .error (uniqueFailed "memory_current_projection.assertion_id")
    else .ok ⟨{ db.toMemoryTables with projection := db.projection.upsert row trivial row.reproject },
      db.linked.project row h.1⟩
  else .error (.sqlite "projection requires approved assertion with evidence")

end MemoryDb

end Execlaw
