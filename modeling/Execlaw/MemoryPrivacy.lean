import Execlaw.MemoryLineage
/-!
# MemoryPrivacy — deleted and retracted memory over runs

A source deletion hides what is derived from the event when it runs, and refuses later evidence of the event; it does
not refuse a later assertion that supersedes a hidden one.  A retraction takes its lineage off the projection once, and
the triggers keep only the superseded part of it off.  Runs that store no heir of a deleted assertion, and that leave
no unsuperseded row of a retraction's lineage on the projection, keep both promises.
-/
namespace Execlaw

open Table Closure Relation Lineage

namespace MemoryAssertionStore

variable (codec : MemoryCodec)

def Step (ok : MemoryDb → MemoryCall → Bool) (db db' : MemoryDb) : Prop :=
  ∃ call, ok db call = true ∧ run codec db call = .ok db'

abbrev Run (ok : MemoryDb → MemoryCall → Bool) : MemoryDb → MemoryDb → Prop := ReflTransGen (Step codec ok)

def replaces (db : MemoryDb) : MemoryCall → Option String
  | .append assertion => assertion.supersedesId
  | .persistCandidate job hostScope hostTrustClass candidate policy now =>
    (newRow db (candidateRow codec job hostScope hostTrustClass candidate policy now)).bind
      MemoryAssertion.supersedesId
  | .correct original .. => some original.assertionId
  | _ => none

def sparesDeleted (db : MemoryDb) (call : MemoryCall) : Bool :=
  (replaces codec db call).all fun p => !db.tombstoned .assertion p

structure Hidden (t : MemoryTables) (event : String × Int) : Prop where
  inLog : t.inLog event = true
  source : t.tombstoned .sourceEvent (sourceId event) = true
  derived : ∀ x, t.DerivedFrom event x → t.tombstoned .assertion x = true

namespace Hidden

variable {codec} {t t' : MemoryTables} {db db' : MemoryDb} {event : String × Int} {a : Option MemoryAssertion}
  {es : List MemoryEvidenceRecord}

theorem congr (h : Hidden t event) (has : t'.assertions = t.assertions) (hes : t'.evidence = t.evidence)
    (hlog : t.inLog event = true → t'.inLog event = true)
    (hstones : ∀ kind id, t.tombstoned kind id = true → t'.tombstoned kind id = true) : Hidden t' event where
  inLog := hlog h.inLog
  source := hstones _ _ h.source
  derived := by
    intro x hx
    unfold MemoryTables.DerivedFrom MemoryTables.Supersedes at hx
    rw [has, hes] at hx
    exact hstones _ _ (h.derived x hx)

theorem stores (h : Hidden t event) (hlinked : t.Linked) (hstores : Stores t t' a es)
    (hes : ∀ e ∈ es, e.event ≠ event) (hspares : ∀ n ∈ a, ∀ p, n.supersedesId = some p →
      t.tombstoned .assertion p = false) : Hidden t' event where
  inLog := by
    rw [MemoryTables.inLog, hstores.events]
    exact h.inLog
  source := by
    rw [MemoryTables.tombstoned, hstores.tombstones]
    exact h.source
  derived := by
    intro x hx
    rw [MemoryTables.tombstoned, hstores.tombstones]
    rcases MemoryTables.derivedFrom_stores hlinked hstores hes hx with hx | ⟨n, hn, rfl, p, hp, hderived⟩
    · exact h.derived x hx
    · have hhidden := h.derived p hderived
      rw [hspares n hn p hp] at hhidden
      cases hhidden

theorem insertEvent (h : Hidden db.toMemoryTables event) {e : EventRow} (hrun : db.insertEvent e = .ok db') :
    Hidden db'.toMemoryTables event := by
  obtain ⟨-, htables⟩ := MemoryDb.insertEvent_ok hrun
  rw [htables]
  exact h.congr rfl rfl (Keyed.row_isSome_insertOrIgnore trivial) fun _ _ hid => hid

theorem insertReview (h : Hidden db.toMemoryTables event) {r : AssertionReview}
    (hrun : db.insertReview r = .ok db') : Hidden db'.toMemoryTables event := by
  obtain ⟨hok, htables, -⟩ := MemoryDb.insertReview_ok hrun
  rw [htables]
  exact h.congr rfl rfl id fun _ _ hid => hid

theorem project (h : Hidden db.toMemoryTables event) {row : ProjectionRow} (hrun : db.project row = .ok db') :
    Hidden db'.toMemoryTables event := by
  obtain ⟨-, -, -, -, htables⟩ := MemoryDb.project_ok hrun
  rw [htables]
  exact h.congr rfl rfl id fun _ _ hid => hid

theorem unproject (h : Hidden db.toMemoryTables event) (ids : List String) :
    Hidden (db.unproject ids).toMemoryTables event :=
  h.congr rfl rfl id fun _ _ hid => hid

theorem event_ne (h : Hidden t event) {e : MemoryEvidenceRecord}
    (hsource : t.tombstoned .sourceEvent (sourceId e.event) = false) : e.event ≠ event := by
  rintro rfl
  rw [h.source] at hsource
  cases hsource

theorem step (h : Hidden db.toMemoryTables event) (hstep : Step codec (sparesDeleted codec) db db') :
    Hidden db'.toMemoryTables event := by
  obtain ⟨call, hspares, hrun⟩ := hstep
  have hheir : ∀ p, replaces codec db call = some p → db.tombstoned .assertion p = false := by
    intro p hp
    rw [sparesDeleted, hp] at hspares
    simpa using hspares
  cases call with
  | commit e => exact h.insertEvent (mapError_ok hrun)
  | append n =>
    refine h.stores db.linked (append_ok hrun) (by simp) fun b hb p hp => hheir p ?_
    rw [← hp, Option.mem_some_iff.1 hb]
    rfl
  | addEvidence e =>
    obtain ⟨hsource, hstores⟩ := addEvidence_ok hrun
    refine h.stores db.linked hstores (fun x hx => ?_) (by simp)
    rw [List.mem_singleton.1 hx]
    exact h.event_ne hsource
  | persistCandidate job hostScope hostTrustClass candidate policy now =>
    obtain ⟨id, hrun⟩ := map_snd_ok hrun
    obtain ⟨hsources, db₁, hstores, hproject⟩ := persistCandidate_ok hrun
    have h₁ : Hidden db₁.toMemoryTables event := by
      refine h.stores db.linked hstores (fun e he => h.event_ne (hsources e he)) fun b hb p hp => hheir p ?_
      rw [replaces, Option.mem_def.1 hb, Option.bind_some, hp]
    rcases projectCandidate_ok hproject with ⟨-, rfl⟩ | ⟨-, hproject⟩
    · exact h₁
    · exact h₁.project hproject
  | projectApproved id key projectedAt =>
    rcases projectApproved_ok hrun with rfl | ⟨row, -, hproject⟩
    · exact h
    · exact h.project hproject
  | retract id reviewerId reason e createdAt =>
    obtain ⟨db₀, db₁, hevent, hreview, rfl⟩ := retract_ok hrun
    exact ((h.insertEvent hevent).insertReview hreview).unproject _
  | correct original replacement reviewerId reason e createdAt =>
    obtain ⟨id, hrun⟩ := map_snd_ok hrun
    obtain ⟨db₀, db₁, db₂, db₃, hevent, h₁, h₂, h₃, h₄⟩ := correct_ok hrun
    have hzero := h.insertEvent hevent
    obtain ⟨hfresh, htables⟩ := MemoryDb.insertEvent_ok hevent
    have hone : Hidden db₁.toMemoryTables event := by
      refine hzero.stores db₀.linked (MemoryDb.insertAssertion_ok h₁) (by simp) fun b hb p hp => ?_
      obtain rfl := Option.mem_some_iff.1 hb
      rw [htables]
      exact hheir p hp
    have htwo : Hidden db₂.toMemoryTables event := by
      refine hone.stores db₁.linked (MemoryDb.insertEvidence_ok h₂).1 (fun x hx => ?_) (by simp)
      -- the review's event is new, and the deleted one was in the log
      rw [List.mem_singleton.1 hx]
      rintro rfl
      exact absurd h.inLog (Bool.eq_false_iff.1 hfresh)
    exact ((htwo.insertReview h₃).unproject _).project h₄
  | tombstoneSourceEvent conversationId eventSeq requestedBy requestedAt =>
    obtain ⟨report, hrun⟩ := map_snd_ok hrun
    obtain ⟨-, -, hhides⟩ := tombstoneSourceEvent_ok hrun
    refine h.congr hhides.assertions hhides.evidence (fun hlog => ?_) hhides.tombstones
    rw [MemoryTables.inLog, hhides.events]
    exact hlog

theorem run (h : Hidden db.toMemoryTables event) (hrun : Run codec (sparesDeleted codec) db db') :
    Hidden db'.toMemoryTables event := by
  induction hrun with
  | refl => exact h
  | tail _ hstep ih => exact ih.step hstep

theorem of_deletion {conversationId requestedBy : String} {eventSeq requestedAt : Int}
    {report : MemoryPrivacyDeletionReport}
    (h : tombstoneSourceEvent codec conversationId eventSeq requestedBy requestedAt db = .ok (report, db')) :
    Hidden db'.toMemoryTables (conversationId, eventSeq) := by
  obtain ⟨hlog, hsource, hhides⟩ := tombstoneSourceEvent_ok h
  refine ⟨?_, hsource, fun x hx => hhides.hidden x (MemoryTables.mem_affected.2 ?_)⟩
  · rw [MemoryTables.inLog, hhides.events]
    exact hlog
  · unfold MemoryTables.DerivedFrom MemoryTables.Supersedes at hx
    rwa [hhides.assertions, hhides.evidence] at hx

end Hidden

/-! ## The lineage of the retractions -/

def uncovered (db : MemoryDb) (lineage ids : List String) : Bool :=
  ids.any fun id => lineage.contains id && !db.superseded id

def sparesRetracted (db : MemoryDb) : MemoryCall → Bool
  | .addEvidence evidence =>
    !uncovered db (retracted db.assertions.rows (db.evidence.rows ++ [lowered evidence]) db.reviews.rows)
      (db.projection.rows.map ProjectionRow.assertionId)
  | .persistCandidate job hostScope hostTrustClass candidate policy now =>
    let row := candidateRow codec job hostScope hostTrustClass candidate policy now
    let evidence := candidateEvidenceRows codec row.assertionId job now candidate.evidence
    !uncovered db
      (retracted (db.assertions.rows ++ (newRow db row).toList) (db.evidence.rows ++ evidence) db.reviews.rows)
      (db.projection.rows.map ProjectionRow.assertionId ++ if row.status = .approved then [row.assertionId] else [])
  | .projectApproved assertionId _ _ => !uncovered db db.retractedLineage [assertionId]
  | _ => true

variable {db : MemoryDb}

theorem superseded_of_uncovered {lineage ids : List String} (h : uncovered db lineage ids = false) {id : String}
    (hid : id ∈ ids) (hmem : id ∈ lineage) : db.superseded id = true := by
  have hnot := List.any_eq_false.1 h id hid
  simpa [hmem] using hnot

def Covered (t : MemoryTables) : Prop :=
  ∀ p ∈ t.projection.rows, p.assertionId ∈ t.retractedLineage → t.superseded p.assertionId = true

namespace Covered

variable {codec} {t t' : MemoryTables} {db db' : MemoryDb} {a : Option MemoryAssertion}
  {es : List MemoryEvidenceRecord}

theorem congr (h : Covered t) (has : t'.assertions = t.assertions) (hes : t'.evidence = t.evidence)
    (hrs : t'.reviews = t.reviews) (hps : ∀ p ∈ t'.projection.rows, p ∈ t.projection.rows) : Covered t' := by
  intro p hp hmem
  unfold MemoryTables.retractedLineage at hmem
  unfold MemoryTables.superseded MemoryTables.evidenced
  rw [has, hes, hrs] at hmem
  rw [has, hes]
  exact h p (hps p hp) hmem

theorem stores (h : Covered t) (hlinked : t.Linked) (hstores : Stores t t' a es)
    (hes : ∀ e ∈ es, e.evidenceKind ≠ .derived ∧ ∀ x ∈ t.evidence.rows, x.event ≠ e.event) : Covered t' := by
  intro p hp hmem
  rw [hstores.projection] at hp
  exact MemoryTables.superseded_mono hstores.assertions_subset hstores.evidence_subset
    (h p hp (MemoryTables.retractedLineage_stores hlinked hstores hes hmem))

theorem stores_of_uncovered (hstores : Stores db.toMemoryTables db'.toMemoryTables a es) {ids : List String}
    (hids : ∀ p ∈ db.projection.rows, p.assertionId ∈ ids)
    (h : uncovered db (retracted (db.assertions.rows ++ a.toList) (db.evidence.rows ++ es) db.reviews.rows) ids =
      false) : Covered db'.toMemoryTables := by
  intro p hp hmem
  rw [hstores.projection] at hp
  exact MemoryTables.superseded_mono hstores.assertions_subset hstores.evidence_subset
    (superseded_of_uncovered h (hids p hp) (MemoryTables.retractedLineage_subset hstores hmem))

theorem insertEvent (h : Covered db.toMemoryTables) {e : EventRow} (hrun : db.insertEvent e = .ok db') :
    Covered db'.toMemoryTables := by
  obtain ⟨-, htables⟩ := MemoryDb.insertEvent_ok hrun
  rw [htables]
  exact h.congr rfl rfl rfl fun _ hp => hp

theorem project (h : Covered db.toMemoryTables) {row : ProjectionRow} (hrun : db.project row = .ok db')
    (hrow : row.assertionId ∈ db.retractedLineage → db.superseded row.assertionId = true) :
    Covered db'.toMemoryTables := by
  intro p hp hmem
  have hp' := MemoryDb.mem_projection_project hrun hp
  obtain ⟨-, -, -, -, htables⟩ := MemoryDb.project_ok hrun
  rw [htables] at hmem ⊢
  rcases hp' with hp' | hid
  · exact h p hp' hmem
  · rw [hid] at hmem ⊢
    exact hrow hmem

variable {r : AssertionReview}

theorem retraction (h : Covered db.toMemoryTables) (hrun : db.insertReview r = .ok db') :
    Covered (db'.unproject (closure db'.lineageEdges [r.assertionId])).toMemoryTables := by
  obtain ⟨hok, htables, hrows⟩ := MemoryDb.insertReview_ok hrun
  intro p hp hmem
  obtain ⟨hp, hkept⟩ := List.mem_filter.1 hp
  have hmem' : p.assertionId ∈ retracted db'.assertions.rows db'.evidence.rows db'.reviews.rows := hmem
  rw [hrows] at hmem'
  rcases retracted_append_review hmem' with hold | ⟨-, hnew⟩
  · rw [htables] at hold hp
    have hsuperseded := h p hp hold
    show db'.toMemoryTables.superseded p.assertionId = true
    rw [htables]
    exact hsuperseded
  · have hkept' : p.assertionId ∉ closure db'.lineageEdges [r.assertionId] := by simpa using hkept
    exact absurd hnew hkept'

theorem retractedLineage_correction (hrun : db.insertReview r = .ok db') (hdecision : r.decision = .corrected) :
    db'.retractedLineage ⊆ db.retractedLineage := by
  obtain ⟨hok, htables, hrows⟩ := MemoryDb.insertReview_ok hrun
  intro x hx
  unfold MemoryTables.retractedLineage at hx
  rw [hrows] at hx
  rcases retracted_append_review hx with hold | ⟨hretracted, -⟩
  · rwa [htables] at hold
  · rw [hdecision] at hretracted
    cases hretracted

theorem correction (h : Covered db.toMemoryTables) (hrun : db.insertReview r = .ok db')
    (hdecision : r.decision = .corrected) : Covered db'.toMemoryTables := by
  intro p hp hmem
  have hold := retractedLineage_correction hrun hdecision hmem
  obtain ⟨hok, htables, -⟩ := MemoryDb.insertReview_ok hrun
  rw [htables] at hp ⊢
  exact h p hp hold

theorem step (h : Covered db.toMemoryTables) (hstep : Step codec (sparesRetracted codec) db db') :
    Covered db'.toMemoryTables := by
  obtain ⟨call, hspares, hrun⟩ := hstep
  cases call with
  | commit e => exact h.insertEvent (mapError_ok hrun)
  | append n => exact h.stores db.linked (append_ok hrun) (by simp)
  | addEvidence e =>
    obtain ⟨-, hstores⟩ := addEvidence_ok hrun
    simp only [sparesRetracted, Bool.not_eq_true'] at hspares
    refine stores_of_uncovered hstores (fun p hp => List.mem_map_of_mem hp) ?_
    simpa using hspares
  | persistCandidate job hostScope hostTrustClass candidate policy now =>
    obtain ⟨id, hrun⟩ := map_snd_ok hrun
    obtain ⟨-, db₁, hstores, hproject⟩ := persistCandidate_ok hrun
    simp only [sparesRetracted, Bool.not_eq_true'] at hspares
    have h₁ : Covered db₁.toMemoryTables :=
      stores_of_uncovered hstores (fun p hp => List.mem_append_left _ (List.mem_map_of_mem hp)) hspares
    rcases projectCandidate_ok hproject with ⟨-, rfl⟩ | ⟨hstatus, hproject⟩
    · exact h₁
    · rw [if_pos hstatus] at hspares
      refine h₁.project hproject fun hmem => ?_
      exact MemoryTables.superseded_mono hstores.assertions_subset hstores.evidence_subset
        (superseded_of_uncovered hspares (List.mem_append_right _ (List.mem_singleton_self _))
          (MemoryTables.retractedLineage_subset hstores hmem))
  | projectApproved id key projectedAt =>
    rcases projectApproved_ok hrun with rfl | ⟨row, rfl, hproject⟩
    · exact h
    · simp only [sparesRetracted, Bool.not_eq_true'] at hspares
      exact h.project hproject fun hmem => superseded_of_uncovered hspares (List.mem_singleton_self _) hmem
  | retract id reviewerId reason e createdAt =>
    obtain ⟨db₀, db₁, hevent, hreview, rfl⟩ := retract_ok hrun
    have hcovered := (h.insertEvent hevent).retraction hreview
    exact hcovered
  | correct original replacement reviewerId reason e createdAt =>
    obtain ⟨id, hrun⟩ := map_snd_ok hrun
    obtain ⟨db₀, db₁, db₂, db₃, hevent, h₁, h₂, h₃, h₄⟩ := correct_ok hrun
    obtain ⟨hfresh, htables⟩ := MemoryDb.insertEvent_ok hevent
    have hrow := MemoryDb.insertAssertion_ok h₁
    have hevidence := (MemoryDb.insertEvidence_ok h₂).1
    -- no evidence is of the event the review has just written
    have hnew : ∀ x ∈ db₀.evidence.rows, x.event ≠ (plainRow e).place := by
      intro x hx heq
      rw [htables] at hx
      have hlog := (db.linked.evidence x hx).2
      rw [heq, hfresh] at hlog
      cases hlog
    have hstores := hrow.append_evidence hevidence
    rw [List.nil_append] at hstores
    have hlone : ∀ x ∈ [correctionEvidence codec (correctionRow codec original replacement reviewerId e
        createdAt).assertionId replacement e createdAt],
        x.evidenceKind ≠ .derived ∧ ∀ y ∈ db₀.evidence.rows, y.event ≠ x.event := by
      intro x hx
      rw [List.mem_singleton.1 hx]
      exact ⟨by simp [correctionEvidence], hnew⟩
    have htwo := (h.insertEvent hevent).stores db₀.linked hstores hlone
    have hthree : Covered db₃.toMemoryTables := htwo.correction h₃ rfl
    have hfour : Covered (db₃.unproject (closure db₃.ancestorEdges [original.assertionId])).toMemoryTables :=
      hthree.congr rfl rfl rfl fun p hp => (List.mem_filter.1 hp).1
    refine hfour.project h₄ fun hmem => ?_
    -- nothing of the lineage is the replacement: its id is new
    have hold := MemoryTables.retractedLineage_stores db₀.linked hstores hlone
      (retractedLineage_correction h₃ rfl hmem)
    have hstored := MemoryTables.stored_of_retracted db₀.linked hold
    rw [(hrow.fresh _ rfl).1] at hstored
    cases hstored
  | tombstoneSourceEvent conversationId eventSeq requestedBy requestedAt =>
    obtain ⟨report, hrun⟩ := map_snd_ok hrun
    obtain ⟨-, -, hhides⟩ := tombstoneSourceEvent_ok hrun
    exact h.congr hhides.assertions hhides.evidence hhides.reviews fun p hp => (hhides.projection p hp).1

theorem run (h : Covered db.toMemoryTables) (hrun : Run codec (sparesRetracted codec) db db') :
    Covered db'.toMemoryTables := by
  induction hrun with
  | refl => exact h
  | tail _ hstep ih => exact ih.step hstep

theorem empty : Covered MemoryDb.empty.toMemoryTables := fun _ hp => absurd hp List.not_mem_nil

end Covered

/-! ## What the readers return -/

inductive ServesCurrent (db : MemoryDb) : MemoryAssertion → Prop
  | currentRanked {scope : String} {trustClasses : List String} {asOf : Int} {limit : Nat} {a : MemoryAssertion}
      (h : a ∈ currentRanked db scope trustClasses asOf limit) : ServesCurrent db a
  | get {scope trustClass key : String} {p : ProjectionRow} {a : MemoryAssertion}
      (h : MemoryStore.projected db scope trustClass key = some (p, a)) : ServesCurrent db a
  | list {scope : String} {trustClasses : List String} {tier : Option MemoryTier} {pre : Option String} {limit : Nat}
      {p : ProjectionRow} {a : MemoryAssertion}
      (h : (p, a) ∈ MemoryStore.projectedEntries db scope trustClasses tier pre limit) : ServesCurrent db a

inductive Serves (db : MemoryDb) : MemoryAssertion → Prop
  | current {a : MemoryAssertion} (h : ServesCurrent db a) : Serves db a
  | history {scope trustClass subject predicate : String} {a : MemoryAssertion}
      (h : a ∈ history db scope trustClass subject predicate) : Serves db a

variable {a : MemoryAssertion}

theorem not_tombstoned_of_servable (h : MemoryStore.servable db a = true) :
    db.tombstoned .assertion a.assertionId = false := by
  simp only [MemoryStore.servable, Bool.and_eq_true, Bool.not_eq_true'] at h
  exact h.1.1.2

theorem not_tombstoned_of_serves (h : Serves db a) : db.tombstoned .assertion a.assertionId = false := by
  cases h with
  | current h =>
    cases h with
    | currentRanked h =>
      have hcurrent := (mem_currentRanked h).2
      simp only [current, trusted, Bool.and_eq_true, Bool.not_eq_true'] at hcurrent
      exact hcurrent.1.1.1.2
    | get h => exact not_tombstoned_of_servable (MemoryStore.projected_eq_some h).2.2
    | list h => exact not_tombstoned_of_servable (MemoryStore.mem_projectedEntries h).2.2.1
  | history h => exact (mem_history h).2

theorem not_retracted_of_servesCurrent (hcovered : Covered db.toMemoryTables) (h : ServesCurrent db a) :
    a.assertionId ∉ db.retractedLineage := by
  have hserved : ∀ {p : ProjectionRow}, p ∈ db.projection.rows → db.assertions.row p.assertionId = some a →
      MemoryStore.servable db a = true → a.assertionId ∉ db.retractedLineage := by
    intro p hp hrow hservable hmem
    have hid : a.assertionId = p.assertionId := Keyed.key_of_row hrow
    have hsuperseded := hcovered p hp (hid ▸ hmem)
    rw [← hid] at hsuperseded
    simp [MemoryStore.servable, hsuperseded] at hservable
  cases h with
  | currentRanked h =>
    have hcurrent := (mem_currentRanked h).2
    simp only [current, trusted, Bool.and_eq_true, Bool.not_eq_true'] at hcurrent
    have hnot := hcurrent.1.1.2
    simpa using hnot
  | get h =>
    obtain ⟨hrow, ha, hservable⟩ := MemoryStore.projected_eq_some h
    exact hserved (Keyed.row_iff.1 hrow).1 ha hservable
  | list h =>
    obtain ⟨hp, ha, hservable, -⟩ := MemoryStore.mem_projectedEntries h
    exact hserved hp ha hservable

/-- A retraction of `id` takes back `x`: the assertion itself, what it superseded, and the summaries derived from
any of it. -/
inductive Withdrawn (t : MemoryTables) (id : String) : String → Prop
  | self : Withdrawn t id id
  | superseded {x p : String} (h : Withdrawn t id x) (hlink : t.Supersedes x p) : Withdrawn t id p
  | summary {x : String} {a : MemoryAssertion} {source derived : MemoryEvidenceRecord} (h : Withdrawn t id x)
      (hsource : source ∈ t.evidence.rows) (hfrom : source.assertionId = x) (hderived : derived ∈ t.evidence.rows)
      (hkind : derived.evidenceKind = .derived) (hevent : source.event = derived.event) (ha : a ∈ t.assertions.rows)
      (hid : a.assertionId = derived.assertionId) (hsummary : a.kind = .summary) : Withdrawn t id a.assertionId

theorem Withdrawn.retracted {t : MemoryTables} {id x : String} (h : Withdrawn t id x) (hid : id ∈ t.retractions) :
    x ∈ t.retractedLineage := by
  induction h with
  | self => exact mem_closure.2 ⟨id, hid, .refl⟩
  | superseded _ hlink ih =>
    obtain ⟨r, hr, hpath⟩ := mem_closure.1 ih
    exact mem_closure.2 ⟨r, hr, hpath.tail (List.mem_append_left _ (mem_ancestorEdges.2 hlink))⟩
  | @summary x a source derived _ hsource hfrom hderived hkind hevent ha hid hsummary ih =>
    obtain ⟨r, hr, hpath⟩ := mem_closure.1 ih
    exact mem_closure.2 ⟨r, hr, hpath.tail (List.mem_append_right _ (mem_summaryEdges.2
      ⟨derived, hderived, hkind, hid.symm, ⟨a, ha, rfl, hsummary⟩, source, hsource, hevent, hfrom⟩))⟩

variable {ok : MemoryDb → MemoryCall → Bool} {codec : MemoryCodec}

theorem Run.grows {db db' : MemoryDb} (h : Run codec ok db db') : Grows db.toMemoryTables db'.toMemoryTables := by
  induction h with
  | refl => exact .refl _
  | tail _ hstep ih =>
    obtain ⟨call, -, hrun⟩ := hstep
    exact ih.trans (run_grows hrun)

theorem retractions_of_retract {db db' : MemoryDb} {id reviewerId reason : String} {event : EventRecord}
    {createdAt : Int} (h : retract codec id reviewerId reason event createdAt db = .ok db') : id ∈ db'.retractions := by
  obtain ⟨db₀, db₁, -, hreview, rfl⟩ := retract_ok h
  obtain ⟨-, -, hrows⟩ := MemoryDb.insertReview_ok hreview
  refine mem_retractions.2
    ⟨reviewRow codec "memory-retraction" id reviewerId .retracted reason event createdAt, ?_, rfl, rfl⟩
  show _ ∈ db₁.reviews.rows
  rw [hrows]
  exact List.mem_append_right _ (List.mem_singleton_self _)

/-- **Deleted and retracted memory does not come back** over runs that store no heir of a deleted assertion and leave
no unsuperseded row of a retraction's lineage on the projection. -/
theorem staysForgotten (codec : MemoryCodec) :
    (∀ (db db₁ db₂ : MemoryDb) (conversationId requestedBy : String) (eventSeq requestedAt : Int)
      (report : MemoryPrivacyDeletionReport),
      tombstoneSourceEvent codec conversationId eventSeq requestedBy requestedAt db = .ok (report, db₁) →
      Run codec (sparesDeleted codec) db₁ db₂ →
      ∀ a, Serves db₂ a → ¬ db₂.DerivedFrom (conversationId, eventSeq) a.assertionId) ∧
    ∀ (db db₁ db₂ : MemoryDb) (id reviewerId reason : String) (event : EventRecord) (createdAt : Int),
      Run codec (sparesRetracted codec) .empty db →
      retract codec id reviewerId reason event createdAt db = .ok db₁ →
      Run codec (sparesRetracted codec) db₁ db₂ →
      ∀ a, ServesCurrent db₂ a → ¬ Withdrawn db₂.toMemoryTables id a.assertionId := by
  constructor
  · intro db db₁ db₂ conversationId requestedBy eventSeq requestedAt report hdelete hrun a hserves hderived
    have hhidden := ((Hidden.of_deletion hdelete).run hrun).derived _ hderived
    rw [not_tombstoned_of_serves hserves] at hhidden
    cases hhidden
  · intro db db₁ db₂ id reviewerId reason event createdAt hbefore hretract hafter a hserves hwithdrawn
    have hstep : Step codec (sparesRetracted codec) db db₁ :=
      ⟨.retract id reviewerId reason event createdAt, rfl, hretract⟩
    have hcovered := ((Covered.empty.run hbefore).step hstep).run hafter
    obtain ⟨r, hr, hdecision, hid⟩ := mem_retractions.1 (retractions_of_retract hretract)
    have hretracted : id ∈ db₂.retractions := mem_retractions.2 ⟨r, hafter.grows.reviews hr, hdecision, hid⟩
    exact not_retracted_of_servesCurrent hcovered hserves (hwithdrawn.retracted hretracted)

/-! ## Sample calls -/

def play (codec : MemoryCodec) (ok : MemoryDb → MemoryCall → Bool) : List MemoryCall → MemoryDb → Option MemoryDb
  | [], db => some db
  | call :: calls, db =>
    if ok db call then
      match run codec db call with
      | .ok db' => play codec ok calls db'
      | .error _ => none
    else none

theorem run_of_play : ∀ {calls : List MemoryCall}
    {db db' : MemoryDb}, play codec ok calls db = some db' → Run codec ok db db'
  | [], db, db', h => by
    cases h
    exact .refl
  | call :: calls, db, db', h => by
    unfold play at h
    split at h
    · next hok =>
      split at h
      · next db₁ hrun => exact .head ⟨call, hok, hrun⟩ (run_of_play h)
      · cases h
    · cases h

def sampleCodec : MemoryCodec where
  jsonText := fun _ => "null"
  candidateJson := fun candidate => Wire.utf8 candidate.subject
  fromSlice := fun _ => .ok .null
  pointer := fun _ _ => none
  sha256 := fun bytes => String.ofList (bytes.map fun b => Char.ofNat b.toNat)

def sampleEvent (seq : Int) : EventRecord := ⟨"c", seq, .other, [], 0, some "controller"⟩

def sampleAssertion (id : String) (supersedesId : Option String) : MemoryAssertion where
  assertionId := id
  scope := "principal"
  trustClass := "Controller"
  kind := .semantic
  subject := "p"
  predicate := "colour"
  object := .str id
  confidence := 1
  status := .approved
  observedFrom := 1
  observedTo := none
  validFrom := 10
  validTo := none
  supersedesId := supersedesId
  extractionRunId := "run"
  createdEventSeq := 1
  createdAt := 10

def sampleEvidence (id : String) (seq : Int) (kind : EvidenceKind) : MemoryEvidenceRecord where
  evidenceId := id
  assertionId := id
  conversationId := "c"
  eventSeq := seq
  payloadPath := "$"
  quoteHash := String.ofList (List.replicate 64 'a')
  evidenceKind := kind
  createdAt := 10

def remembered : List MemoryCall :=
  [.commit (sampleEvent 1), .append (sampleAssertion "root" none), .addEvidence (sampleEvidence "root" 1 .directQuote),
    .projectApproved "root" "p:colour" 10]

theorem toOption_eq_some {ε α : Type} {x : Except ε α} {a : α} : x.toOption = some a ↔ x = .ok a := by
  cases x <;> simp [Except.toOption]

def playAround (ok : MemoryDb → MemoryCall → Bool) (before : List MemoryCall) (call : MemoryCall)
    (after : List MemoryCall) : Option (MemoryDb × MemoryDb × MemoryDb) := do
  let db ← play sampleCodec ok before .empty
  let db₁ ← (run sampleCodec db call).toOption
  let db₂ ← play sampleCodec ok after db₁
  return (db, db₁, db₂)

theorem playAround_eq_some {before after : List MemoryCall} {call : MemoryCall} {db db₁ db₂ : MemoryDb}
    (h : playAround ok before call after = some (db, db₁, db₂)) :
    Run sampleCodec ok .empty db ∧ run sampleCodec db call = .ok db₁ ∧ Run sampleCodec ok db₁ db₂ := by
  simp only [playAround, Option.bind_eq_bind, Option.bind_eq_some_iff] at h
  obtain ⟨x, hx, y, hy, z, hz, heq⟩ := h
  cases heq
  exact ⟨run_of_play hx, toOption_eq_some.1 hy, run_of_play hz⟩

/-- An unrelated fact after the deletion, and a retraction with a projection of another assertion after it. -/
theorem staysForgotten_sample :
    (∃ db₁ db₂ : MemoryDb, Hidden db₁.toMemoryTables ("c", 1) ∧ db₂.stored "other" = true ∧
      ∀ a, Serves db₂ a → ¬ db₂.DerivedFrom ("c", 1) a.assertionId) ∧
    ∃ db₁ db₂ : MemoryDb, "root" ∈ db₁.retractions ∧ db₂.stored "other" = true ∧
      ∀ a, ServesCurrent db₂ a → ¬ Withdrawn db₂.toMemoryTables "root" a.assertionId := by
  constructor
  · have hplay : (playAround (sparesDeleted sampleCodec) remembered (.tombstoneSourceEvent "c" 1 "controller" 30)
        [.append (sampleAssertion "other" none)]).map (fun x => x.2.2.stored "other") = some true := by
      decide +kernel
    obtain ⟨⟨db, db₁, db₂⟩, hdbs, hstored⟩ := Option.map_eq_some_iff.1 hplay
    obtain ⟨-, hdelete, hrun⟩ := playAround_eq_some hdbs
    obtain ⟨report, hdelete⟩ := map_snd_ok hdelete
    exact ⟨db₁, db₂, Hidden.of_deletion hdelete, hstored,
      (staysForgotten sampleCodec).1 db db₁ db₂ "c" "controller" 1 30 report hdelete hrun⟩
  · have hplay : (playAround (sparesRetracted sampleCodec) remembered
        (.retract "root" "controller" "wrong" (sampleEvent 2) 30)
        [.append (sampleAssertion "other" none), .addEvidence (sampleEvidence "other" 1 .directQuote),
          .projectApproved "other" "p:colour" 40]).map (fun x => x.2.2.stored "other") = some true := by
      decide +kernel
    obtain ⟨⟨db, db₁, db₂⟩, hdbs, hstored⟩ := Option.map_eq_some_iff.1 hplay
    obtain ⟨hbefore, hretract, hafter⟩ := playAround_eq_some hdbs
    exact ⟨db₁, db₂, retractions_of_retract hretract, hstored,
      (staysForgotten sampleCodec).2 db db₁ db₂ "root" "controller" "wrong" (sampleEvent 2) 30 hbefore hretract hafter⟩

/-- **An heir of a deleted assertion is read**: an assertion stored after the deletion supersedes what it hid. -/
theorem heir_returned : ∃ (db db₁ db₂ : MemoryDb) (report : MemoryPrivacyDeletionReport) (a : MemoryAssertion),
    Run sampleCodec (fun _ _ => true) .empty db ∧
      tombstoneSourceEvent sampleCodec "c" 1 "controller" 30 db = .ok (report, db₁) ∧
      run sampleCodec db₁ (.append (sampleAssertion "heir" (some "root"))) = .ok db₂ ∧
      a ∈ history db₂ "principal" "Controller" "p" "colour" ∧ db₂.DerivedFrom ("c", 1) a.assertionId := by
  have hplay : (playAround (fun _ _ => true) remembered (.tombstoneSourceEvent "c" 1 "controller" 30) []).any
      (fun x => (run sampleCodec x.2.1 (.append (sampleAssertion "heir" (some "root")))).toOption.any fun db₂ =>
        (history db₂ "principal" "Controller" "p" "colour").any fun a => (affected db₂ ("c", 1)).contains a.assertionId) =
      true := by
    decide +kernel
  obtain ⟨⟨db, db₁, db₁'⟩, hdbs, hheir⟩ := (Option.any_eq_true _ _).1 hplay
  obtain ⟨db₂, hrun, hread⟩ := (Option.any_eq_true _ _).1 hheir
  obtain ⟨a, ha, hmem⟩ := List.any_eq_true.1 hread
  obtain ⟨hbefore, hdelete, -⟩ := playAround_eq_some hdbs
  obtain ⟨report, hdelete⟩ := map_snd_ok hdelete
  exact ⟨db, db₁, db₂, report, a, hbefore, hdelete, toOption_eq_some.1 hrun, ha,
    MemoryTables.mem_affected.1 (by simpa using hmem)⟩

end MemoryAssertionStore

end Execlaw
