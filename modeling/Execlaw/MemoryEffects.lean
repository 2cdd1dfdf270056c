import Execlaw.MemoryReads
/-!
# MemoryEffects — what each writer leaves behind

A call either fails and leaves the tables, or its effect is one of few: it stores an assertion with evidence (`Stores`),
moves the projection, adds a review, or hides what an event supports.  One lemma a writer; the lineages are then read
off the stored rows.
-/
namespace Execlaw

open Table Closure Relation

inductive MemoryCall
  | commit (event : EventRecord)
  | append (assertion : MemoryAssertion)
  | addEvidence (evidence : MemoryEvidenceRecord)
  | persistCandidate (job : MemoryJob) (hostScope hostTrustClass : String) (candidate : MemoryCandidate)
      (policy : MemoryExtractionPolicy) (now : Int)
  | projectApproved (assertionId key : String) (projectedAt : Int)
  | retract (assertionId reviewerId reason : String) (event : EventRecord) (createdAt : Int)
  | correct (original : MemoryAssertion) (replacement : Json) (reviewerId reason : String) (event : EventRecord)
      (createdAt : Int)
  | tombstoneSourceEvent (conversationId : String) (eventSeq : Int) (requestedBy : String) (requestedAt : Int)

def MemoryAssertionStore.run (codec : MemoryCodec) (db : MemoryDb) : MemoryCall → Except MemoryAssertionError MemoryDb
  | .commit event => (db.insertEvent (plainRow event)).mapError .db
  | .append assertion => append assertion db
  | .addEvidence evidence => addEvidence evidence db
  | .persistCandidate job hostScope hostTrustClass candidate policy now =>
    (persistCandidate codec job hostScope hostTrustClass candidate policy now db).map Prod.snd
  | .projectApproved assertionId key projectedAt => projectApproved assertionId key projectedAt db
  | .retract assertionId reviewerId reason event createdAt =>
    retract codec assertionId reviewerId reason event createdAt db
  | .correct original replacement reviewerId reason event createdAt =>
    (correct codec original replacement reviewerId reason event createdAt db).map Prod.snd
  | .tombstoneSourceEvent conversationId eventSeq requestedBy requestedAt =>
    (tombstoneSourceEvent codec conversationId eventSeq requestedBy requestedAt db).map Prod.snd

/-! ## Rows stored -/

structure Stores (t t' : MemoryTables) (assertion : Option MemoryAssertion)
    (evidence : List MemoryEvidenceRecord) : Prop where
  assertions : t'.assertions.rows = t.assertions.rows ++ assertion.toList
  fresh : ∀ a ∈ assertion, t.stored a.assertionId = false ∧ a.Ok ∧ a.supersedesId.all t.stored = true
  evidence : ∃ stored ⊆ evidence, t'.evidence.rows = t.evidence.rows ++ stored
  events : t'.events = t.events
  projection : t'.projection = t.projection
  reviews : t'.reviews = t.reviews
  tombstones : t'.tombstones = t.tombstones

namespace Stores

variable {t t' t'' : MemoryTables} {a : Option MemoryAssertion} {es fs : List MemoryEvidenceRecord}

theorem refl (t : MemoryTables) : Stores t t none [] :=
  ⟨by simp, by simp, ⟨[], by simp, by simp⟩, rfl, rfl, rfl, rfl⟩

theorem append_evidence (h : Stores t t' a es) (h' : Stores t' t'' none fs) : Stores t t'' a (es ++ fs) where
  assertions := by rw [h'.assertions, h.assertions, Option.toList_none, List.append_nil]
  fresh := h.fresh
  evidence := by
    obtain ⟨u, hu, heu⟩ := h.evidence
    obtain ⟨v, hv, hev⟩ := h'.evidence
    refine ⟨u ++ v, List.append_subset.2 ⟨fun x hx => ?_, fun x hx => ?_⟩, by rw [hev, heu, List.append_assoc]⟩
    · exact List.mem_append_left _ (hu hx)
    · exact List.mem_append_right _ (hv hx)
  events := h'.events.trans h.events
  projection := h'.projection.trans h.projection
  reviews := h'.reviews.trans h.reviews
  tombstones := h'.tombstones.trans h.tombstones

theorem assertions_subset (h : Stores t t' a es) : t.assertions.rows ⊆ t'.assertions.rows := by
  rw [h.assertions]
  exact List.subset_append_left _ _

theorem evidence_subset (h : Stores t t' a es) : t.evidence.rows ⊆ t'.evidence.rows := by
  obtain ⟨u, -, hu⟩ := h.evidence
  rw [hu]
  exact List.subset_append_left _ _

theorem evidence_cases (h : Stores t t' a es) {e : MemoryEvidenceRecord} (he : e ∈ t'.evidence.rows) :
    e ∈ t.evidence.rows ∨ e ∈ es := by
  obtain ⟨u, hsub, hu⟩ := h.evidence
  rw [hu, List.mem_append] at he
  exact he.imp_right (hsub ·)

end Stores

/-! ## Rows hidden -/

structure Hides (t t' : MemoryTables) (ids : List String) : Prop where
  events : t'.events = t.events
  assertions : t'.assertions = t.assertions
  evidence : t'.evidence = t.evidence
  reviews : t'.reviews = t.reviews
  projection : ∀ p ∈ t'.projection.rows, p ∈ t.projection.rows ∧ p.assertionId ∉ ids
  tombstones : ∀ kind id, t.tombstoned kind id = true → t'.tombstoned kind id = true
  hidden : ∀ id ∈ ids, t'.tombstoned .assertion id = true

namespace Hides

variable {t t' t'' : MemoryTables} {ids ids' : List String}

theorem refl (t : MemoryTables) : Hides t t [] :=
  ⟨rfl, rfl, rfl, rfl, fun _ hp => ⟨hp, List.not_mem_nil⟩, fun _ _ h => h, fun _ h => absurd h List.not_mem_nil⟩

theorem trans (h : Hides t t' ids) (h' : Hides t' t'' ids') : Hides t t'' (ids ++ ids') where
  events := h'.events.trans h.events
  assertions := h'.assertions.trans h.assertions
  evidence := h'.evidence.trans h.evidence
  reviews := h'.reviews.trans h.reviews
  projection := by
    intro p hp
    obtain ⟨hp', hnot'⟩ := h'.projection p hp
    obtain ⟨hp, hnot⟩ := h.projection p hp'
    exact ⟨hp, fun hmem => (List.mem_append.1 hmem).elim hnot hnot'⟩
  tombstones := fun kind id hid => h'.tombstones kind id (h.tombstones kind id hid)
  hidden := by
    intro id hid
    rcases List.mem_append.1 hid with hid | hid
    · exact h'.tombstones _ _ (h.hidden id hid)
    · exact h'.hidden id hid

end Hides

namespace MemoryDb

variable {db db' : MemoryDb}

theorem insertTombstone_hides (db : MemoryDb) (s : PrivacyTombstone) :
    Hides db.toMemoryTables (db.insertTombstone s).2.toMemoryTables [] := by
  unfold insertTombstone
  split
  · next hok =>
    refine ⟨rfl, rfl, rfl, rfl, fun _ hp => ⟨hp, List.not_mem_nil⟩, fun kind id hid => ?_,
      fun _ h => absurd h List.not_mem_nil⟩
    exact Keyed.row_isSome_insertOrIgnore hok hid
  · exact .refl _

theorem tombstoned_insertTombstone (db : MemoryDb) {s : PrivacyTombstone} (hok : s.Ok) :
    (db.insertTombstone s).2.tombstoned s.targetKind s.targetId = true := by
  unfold insertTombstone
  rw [dif_pos hok]
  show ((db.tombstones.insertOrIgnore s hok).row s.target).isSome = true
  rw [Keyed.row_insertOrIgnore, if_pos rfl]
  cases db.tombstones.row s.target <;> rfl

theorem unproject_hides {ids : List String} (h : ∀ id ∈ ids, db.tombstoned .assertion id = true) :
    Hides db.toMemoryTables (db.unproject ids).toMemoryTables ids := by
  refine ⟨rfl, rfl, rfl, rfl, fun p hp => ?_, fun _ _ hid => hid, h⟩
  have hmem := List.mem_filter.1 hp
  refine ⟨hmem.1, fun hid => ?_⟩
  simp [hid] at hmem

theorem insertEvent_ok {e : EventRow} (h : db.insertEvent e = .ok db') :
    db.inLog e.place = false ∧
      db'.toMemoryTables = { db.toMemoryTables with events := db.events.insertOrIgnore e trivial } := by
  unfold insertEvent at h
  split at h
  · cases h
  · next hfresh =>
    cases h
    exact ⟨Bool.eq_false_iff.2 hfresh, rfl⟩

theorem insertAssertion_ok {a : MemoryAssertion} (h : db.insertAssertion a = .ok db') :
    Stores db.toMemoryTables db'.toMemoryTables (some a) [] := by
  unfold insertAssertion at h
  split at h
  · next hok =>
    split at h
    · cases h
    · next hfresh =>
      split at h
      · next hfk =>
        cases h
        rw [Bool.not_eq_true] at hfresh
        refine ⟨Keyed.rows_insertOrIgnore hok hfresh, ?_, ⟨[], by simp, by simp⟩, rfl, rfl, rfl, rfl⟩
        intro b hb
        obtain rfl := Option.mem_some_iff.1 hb
        exact ⟨hfresh, hok, hfk⟩
      · cases h
  · cases h

theorem insertOrIgnoreAssertion_ok {a : MemoryAssertion} (h : db.insertOrIgnoreAssertion a = .ok db') :
    Stores db.toMemoryTables db'.toMemoryTables (if a.Ok ∧ db.stored a.assertionId = false then some a else none)
      [] := by
  unfold insertOrIgnoreAssertion at h
  split at h
  · next hnew =>
    rw [if_pos hnew]
    exact insertAssertion_ok h
  · next hnew =>
    rw [if_neg hnew]
    cases h
    exact .refl _

theorem insertEvidence_ok {e : MemoryEvidenceRecord} (h : db.insertEvidence e = .ok db') :
    Stores db.toMemoryTables db'.toMemoryTables none [e] ∧ db'.evidence.rows = db.evidence.rows ++ [e] := by
  unfold insertEvidence at h
  split at h
  · next hok =>
    split at h
    · cases h
    · next hfresh =>
      split at h
      · cases h
      · split at h
        · next hfk =>
          cases h
          have hrows := Keyed.rows_insertOrIgnore hok (Bool.eq_false_iff.2 hfresh)
          exact ⟨⟨by simp, by simp, ⟨[e], by simp, hrows⟩, rfl, rfl, rfl, rfl⟩, hrows⟩
        · cases h
  · cases h

theorem insertOrIgnoreEvidence_ok {e : MemoryEvidenceRecord} (h : db.insertOrIgnoreEvidence e = .ok db') :
    Stores db.toMemoryTables db'.toMemoryTables none [e] := by
  unfold insertOrIgnoreEvidence at h
  split at h
  · exact (insertEvidence_ok h).1
  · cases h
    exact ⟨by simp, by simp, ⟨[], by simp, by simp⟩, rfl, rfl, rfl, rfl⟩

theorem insertReview_ok {r : AssertionReview} (h : db.insertReview r = .ok db') :
    ∃ hok, db'.toMemoryTables = { db.toMemoryTables with reviews := db.reviews.insertOrIgnore r hok } ∧
      db'.reviews.rows = db.reviews.rows ++ [r] := by
  unfold insertReview at h
  split at h
  · next hok =>
    split at h
    · cases h
    · next hfresh =>
      split at h
      · cases h
      · split at h
        · cases h
          exact ⟨hok, rfl, Keyed.rows_insertOrIgnore hok (Bool.eq_false_iff.2 hfresh)⟩
        · cases h
  · cases h

theorem project_ok {row : ProjectionRow} (h : db.project row = .ok db') :
    db.approvedFor row = true ∧ db.evidenced row.assertionId = true ∧ row.assertionId ∉ db.retractedAncestry ∧
      db.tombstoned .assertion row.assertionId = false ∧
      db'.toMemoryTables =
        { db.toMemoryTables with projection := db.projection.upsert row trivial row.reproject } := by
  unfold project at h
  split at h
  · next happroved =>
    split at h
    · cases h
    · next hretracted =>
      split at h
      · cases h
      · next htombstoned =>
        split at h
        · cases h
        · cases h
          refine ⟨happroved.1, happroved.2, ?_, Bool.eq_false_iff.2 htombstoned, rfl⟩
          simpa using hretracted
  · cases h

theorem mem_projection_project {row q : ProjectionRow} (h : db.project row = .ok db') (hq : q ∈ db'.projection.rows) :
    q ∈ db.projection.rows ∨ q.assertionId = row.assertionId := by
  obtain ⟨-, -, -, -, htables⟩ := project_ok h
  rw [htables] at hq
  rcases Keyed.mem_upsert hq with ⟨hq, -⟩ | rfl | ⟨p, -, -, rfl⟩
  · exact .inl hq
  · exact .inr rfl
  · exact .inr rfl

end MemoryDb

/-! ## The writers -/

namespace MemoryAssertionStore

variable {codec : MemoryCodec} {db db' : MemoryDb}

theorem mapError_ok {α ε ε' : Type} {x : Except ε α} {f : ε → ε'} {a : α} (h : x.mapError f = .ok a) : x = .ok a := by
  cases x with
  | error e => cases h
  | ok b => cases h; rfl

theorem map_snd_ok {α β ε : Type} {x : Except ε (α × β)} {b : β} (h : x.map Prod.snd = .ok b) :
    ∃ a, x = .ok (a, b) := by
  cases x with
  | error e => cases h
  | ok p => cases h; exact ⟨p.1, rfl⟩

theorem append_ok {a : MemoryAssertion} (h : append a db = .ok db') :
    Stores db.toMemoryTables db'.toMemoryTables (some a) [] := by
  unfold append at h
  split at h
  · cases h
  · split at h
    · cases h
    · exact MemoryDb.insertAssertion_ok (mapError_ok h)

theorem addEvidence_ok {e : MemoryEvidenceRecord} (h : addEvidence e db = .ok db') :
    db.tombstoned .sourceEvent (sourceId e.event) = false ∧
      Stores db.toMemoryTables db'.toMemoryTables none [lowered e] := by
  unfold addEvidence at h
  split at h
  · cases h
  · split at h
    · cases h
    · next htombstoned =>
      simp only [Bool.or_eq_true, not_or, Bool.not_eq_true] at htombstoned
      exact ⟨htombstoned.2, (MemoryDb.insertEvidence_ok (mapError_ok h)).1⟩

theorem projectApproved_ok {assertionId key : String} {projectedAt : Int}
    (h : projectApproved assertionId key projectedAt db = .ok db') :
    db' = db ∨ ∃ row, row.assertionId = assertionId ∧ db.project row = .ok db' := by
  unfold projectApproved at h
  split at h
  · cases h
    exact .inl rfl
  · next a hrow =>
    have hid : a.assertionId = assertionId := Keyed.key_of_row hrow
    exact .inr ⟨_, hid, mapError_ok h⟩

theorem insertEvidenceRows_ok : ∀ {es : List MemoryEvidenceRecord} {db : MemoryDb},
    insertEvidenceRows es db = .ok db' → Stores db.toMemoryTables db'.toMemoryTables none es
  | [], db, h => by
    cases h
    exact .refl _
  | e :: es, db, h => by
    obtain ⟨db₁, h₁, h₂⟩ := bind_eq_ok.1 h
    exact (MemoryDb.insertOrIgnoreEvidence_ok h₁).append_evidence (insertEvidenceRows_ok h₂)

/-- The assertion an `INSERT OR IGNORE` stores. -/
def newRow (db : MemoryDb) (row : MemoryAssertion) : Option MemoryAssertion :=
  if row.Ok ∧ db.stored row.assertionId = false then some row else none

theorem storeCandidate_ok {row : MemoryAssertion} {es : List MemoryEvidenceRecord}
    (h : storeCandidate row es db = .ok db') :
    Stores db.toMemoryTables db'.toMemoryTables (newRow db row) es := by
  obtain ⟨db₁, h₁, h₂⟩ := bind_eq_ok.1 h
  exact (MemoryDb.insertOrIgnoreAssertion_ok h₁).append_evidence (insertEvidenceRows_ok h₂)

theorem forM_ok {α : Type} {f : α → Except DbError Unit} : ∀ {l : List α}, l.forM f = .ok () → ∀ x ∈ l, f x = .ok ()
  | [], _, _, hx => by cases hx
  | a :: l, h, x, hx => by
    obtain ⟨u, ha, hl⟩ := bind_eq_ok.1 h
    rcases List.mem_cons.1 hx with rfl | hx
    · exact ha
    · exact forM_ok hl x hx

theorem checkCandidateEvidence_ok {job : MemoryJob} {item : CandidateEvidence}
    (h : checkCandidateEvidence codec job db item = .ok ()) :
    db.tombstoned .sourceEvent (sourceId (job.conversationId, item.eventSeq)) = false := by
  unfold checkCandidateEvidence at h
  split at h
  · cases h
  · next hsource => exact Bool.eq_false_iff.2 hsource

/-- **A persisted candidate** rests on no deleted source: its rows are stored, and projected if it is approved. -/
theorem persistCandidate_ok {job : MemoryJob} {hostScope hostTrustClass id : String} {candidate : MemoryCandidate}
    {policy : MemoryExtractionPolicy} {now : Int}
    (h : persistCandidate codec job hostScope hostTrustClass candidate policy now db = .ok (id, db')) :
    let row := candidateRow codec job hostScope hostTrustClass candidate policy now
    let es := candidateEvidenceRows codec row.assertionId job now candidate.evidence
    (∀ e ∈ es, db.tombstoned .sourceEvent (sourceId e.event) = false) ∧
      ∃ db₁ : MemoryDb, Stores db.toMemoryTables db₁.toMemoryTables (newRow db row) es ∧
        projectCandidate row now db₁ = .ok db' := by
  intro row es
  unfold persistCandidate at h
  split at h
  · cases h
  · have h' := mapError_ok h
    obtain ⟨u, hcheck, hwrite⟩ := bind_eq_ok.1 h'
    obtain ⟨db₁, hstore, hproject⟩ := bind_eq_ok.1 hwrite
    obtain ⟨db₂, hproject, hdone⟩ := bind_eq_ok.1 hproject
    cases hdone
    refine ⟨fun e he => ?_, db₁, storeCandidate_ok hstore, hproject⟩
    unfold checkCandidate at hcheck
    split at hcheck
    · cases hcheck
    · split at hcheck
      · cases hcheck
      · obtain ⟨i, hi, rfl⟩ := List.mem_mapIdx.1 he
        exact checkCandidateEvidence_ok (forM_ok hcheck _ (List.getElem_mem hi))

theorem projectCandidate_ok {row : MemoryAssertion} {now : Int} (h : projectCandidate row now db = .ok db') :
    row.status ≠ .approved ∧ db' = db ∨ row.status = .approved ∧
      db.project { scope := row.scope, trustClass := row.trustClass, key := projectionKey row.subject row.predicate
                   assertionId := row.assertionId, projectedAt := now } = .ok db' := by
  unfold projectCandidate at h
  split at h
  · next hstatus => exact .inr ⟨hstatus, h⟩
  · next hstatus =>
    cases h
    exact .inl ⟨hstatus, rfl⟩

theorem retract_ok {assertionId reviewerId reason : String} {event : EventRecord} {createdAt : Int}
    (h : retract codec assertionId reviewerId reason event createdAt db = .ok db') :
    ∃ db₀ db₁ : MemoryDb, db.insertEvent (plainRow event) = .ok db₀ ∧
      db₀.insertReview (reviewRow codec "memory-retraction" assertionId reviewerId .retracted reason event createdAt) =
        .ok db₁ ∧ db' = db₁.unproject (closure db₁.lineageEdges [assertionId]) := by
  unfold retract at h
  split at h
  · cases h
  · next db₀ hevent =>
    unfold insertRetraction at h
    split at h
    · cases h
    · split at h
      · cases h
      · split at h
        · cases h
        · split at h
          · cases h
          · next db₁ hreview =>
            cases h
            exact ⟨db₀, db₁, hevent, hreview, rfl⟩

theorem correct_ok {original : MemoryAssertion} {replacement : Json} {reviewerId reason id : String}
    {event : EventRecord} {createdAt : Int}
    (h : correct codec original replacement reviewerId reason event createdAt db = .ok (id, db')) :
    let row := correctionRow codec original replacement reviewerId event createdAt
    let e := correctionEvidence codec row.assertionId replacement event createdAt
    let review := reviewRow codec "memory-correction-review" original.assertionId reviewerId .corrected reason event
      createdAt
    ∃ db₀ db₁ db₂ db₃ : MemoryDb, db.insertEvent (plainRow event) = .ok db₀ ∧ db₀.insertAssertion row = .ok db₁ ∧
      db₁.insertEvidence e = .ok db₂ ∧ db₂.insertReview review = .ok db₃ ∧
      (db₃.unproject (closure db₃.ancestorEdges [original.assertionId])).project
        { scope := original.scope, trustClass := original.trustClass
          key := projectionKey original.subject original.predicate
          assertionId := row.assertionId, projectedAt := createdAt } = .ok db' := by
  intro row e review
  unfold correct at h
  split at h
  · cases h
  · next db₀ hevent =>
    unfold insertCorrection at h
    split at h
    · cases h
    · split at h
      · cases h
      · split at h
        · cases h
        · split at h
          · cases h
          · have h' := mapError_ok h
            obtain ⟨db₁, h₁, h'⟩ := bind_eq_ok.1 h'
            obtain ⟨db₂, h₂, h'⟩ := bind_eq_ok.1 h'
            obtain ⟨db₃, h₃, h'⟩ := bind_eq_ok.1 h'
            obtain ⟨db₄, h₄, h'⟩ := bind_eq_ok.1 h'
            cases h'
            exact ⟨db₀, db₁, db₂, db₃, hevent, h₁, h₂, h₃, h₄⟩

section Hiding

variable {tombstone : TombstoneKind → String → Option String → PrivacyTombstone}

theorem hideEvidence_hides (assertionId : String) : ∀ (ids : List String)
    (done : MemoryPrivacyDeletionReport × MemoryDb),
    Hides done.2.toMemoryTables (hideEvidence tombstone assertionId ids done).2.toMemoryTables []
  | [], _ => .refl _
  | id :: ids, done => by
    have hrest := hideEvidence_hides assertionId ids
      ({ done.1 with evidenceHidden := done.1.evidenceHidden +
          (done.2.insertTombstone (tombstone .evidence id (some assertionId))).1 },
        (done.2.insertTombstone (tombstone .evidence id (some assertionId))).2)
    exact (done.2.insertTombstone_hides _).trans hrest

theorem hideAssertions_hides (htarget : ∀ kind id a, (tombstone kind id a).target = (kind, id))
    (hok : ∀ kind id a, (tombstone kind id a).Ok) : ∀ (ids : List String)
    (done : MemoryPrivacyDeletionReport × MemoryDb),
    Hides done.2.toMemoryTables (hideAssertions tombstone ids done).2.toMemoryTables ids
  | [], _ => .refl _
  | id :: ids, done => by
    have hrow := htarget .assertion id (some id)
    have htomb := done.2.tombstoned_insertTombstone (hok .assertion id (some id))
    rw [PrivacyTombstone.target, Prod.mk.injEq] at hrow
    rw [hrow.1, hrow.2] at htomb
    have hhide : ∀ x ∈ [id], (done.2.insertTombstone (tombstone .assertion id (some id))).2.tombstoned .assertion x =
        true := by
      intro x hx
      rw [List.mem_singleton.1 hx]
      exact htomb
    have hfirst := (done.2.insertTombstone_hides _).trans (MemoryDb.unproject_hides hhide)
    have hrest : ∀ evidenceIds report (db₀ : MemoryDb), Hides done.2.toMemoryTables db₀.toMemoryTables ([] ++ [id]) →
        Hides done.2.toMemoryTables (hideAssertions tombstone ids
          (hideEvidence tombstone id evidenceIds (report, db₀))).2.toMemoryTables (id :: ids) :=
      fun evidenceIds report db₀ h =>
        h.trans ((hideEvidence_hides id evidenceIds (report, db₀)).trans (hideAssertions_hides htarget hok ids _))
    exact hrest _ _ _ hfirst

theorem tombstoneSourceEvent_ok {conversationId requestedBy : String} {eventSeq requestedAt : Int}
    {report : MemoryPrivacyDeletionReport}
    (h : tombstoneSourceEvent codec conversationId eventSeq requestedBy requestedAt db = .ok (report, db')) :
    db.inLog (conversationId, eventSeq) = true ∧
      db'.tombstoned .sourceEvent (sourceId (conversationId, eventSeq)) = true ∧
      Hides db.toMemoryTables db'.toMemoryTables (affected db (conversationId, eventSeq)) := by
  unfold tombstoneSourceEvent at h
  dsimp only at h
  split at h
  · cases h
  · next hargs =>
    split at h
    · cases h
    · next hlog =>
      rw [not_or, not_or, Int.not_le] at hargs
      have hok : ∀ kind id a, (requestTombstone codec (conversationId, eventSeq) requestedBy requestedAt kind id a).Ok :=
        fun _ _ _ => hargs.2.1
      have hsource := db.tombstoned_insertTombstone (hok .sourceEvent (sourceId (conversationId, eventSeq)) none)
      have hfirst := db.insertTombstone_hides
        (requestTombstone codec (conversationId, eventSeq) requestedBy requestedAt .sourceEvent
          (sourceId (conversationId, eventSeq)) none)
      generalize (db.insertTombstone _).2 = db₀ at h hsource hfirst
      have haffected : affected db₀ (conversationId, eventSeq) = affected db (conversationId, eventSeq) := by
        unfold affected MemoryTables.childEdges
        rw [hfirst.assertions, hfirst.evidence]
      rw [haffected] at h
      have hrest := hideAssertions_hides (fun _ _ _ => rfl) hok (affected db (conversationId, eventSeq)) ({}, db₀)
      rw [Except.ok.inj h] at hrest
      exact ⟨by simpa using hlog, hrest.tombstones _ _ hsource, hfirst.trans hrest⟩

end Hiding

/-! ## Append-only tables -/

structure Grows (t t' : MemoryTables) : Prop where
  assertions : t.assertions.rows ⊆ t'.assertions.rows
  evidence : t.evidence.rows ⊆ t'.evidence.rows
  reviews : t.reviews.rows ⊆ t'.reviews.rows

namespace Grows

variable {t t' t'' : MemoryTables}

theorem refl (t : MemoryTables) : Grows t t := ⟨fun _ h => h, fun _ h => h, fun _ h => h⟩

theorem trans (h : Grows t t') (h' : Grows t' t'') : Grows t t'' :=
  ⟨fun _ hx => h'.assertions (h.assertions hx), fun _ hx => h'.evidence (h.evidence hx),
    fun _ hx => h'.reviews (h.reviews hx)⟩

theorem of_eq (has : t'.assertions = t.assertions) (hes : t'.evidence = t.evidence) (hrs : t'.reviews = t.reviews) :
    Grows t t' := by
  constructor
  · rw [has]; exact fun _ h => h
  · rw [hes]; exact fun _ h => h
  · rw [hrs]; exact fun _ h => h

theorem of_stores {a : Option MemoryAssertion} {es : List MemoryEvidenceRecord} (h : Stores t t' a es) :
    Grows t t' := by
  refine ⟨h.assertions_subset, h.evidence_subset, ?_⟩
  rw [h.reviews]
  exact fun _ h => h

theorem of_insertEvent {e : EventRow} (h : db.insertEvent e = .ok db') :
    Grows db.toMemoryTables db'.toMemoryTables := by
  rw [(MemoryDb.insertEvent_ok h).2]
  exact of_eq rfl rfl rfl

theorem of_insertReview {r : AssertionReview} (h : db.insertReview r = .ok db') :
    Grows db.toMemoryTables db'.toMemoryTables := by
  obtain ⟨hok, htables, hrows⟩ := MemoryDb.insertReview_ok h
  refine ⟨?_, ?_, ?_⟩
  · rw [htables]; exact fun _ h => h
  · rw [htables]; exact fun _ h => h
  · rw [hrows]; exact List.subset_append_left _ _

theorem of_project {row : ProjectionRow} (h : db.project row = .ok db') :
    Grows db.toMemoryTables db'.toMemoryTables := by
  obtain ⟨-, -, -, -, htables⟩ := MemoryDb.project_ok h
  rw [htables]
  exact of_eq rfl rfl rfl

end Grows

theorem run_grows {call : MemoryCall} (hrun : run codec db call = .ok db') :
    Grows db.toMemoryTables db'.toMemoryTables := by
  cases call with
  | commit e => exact .of_insertEvent (mapError_ok hrun)
  | append n => exact .of_stores (append_ok hrun)
  | addEvidence e => exact .of_stores (addEvidence_ok hrun).2
  | persistCandidate job hostScope hostTrustClass candidate policy now =>
    obtain ⟨id, hrun⟩ := map_snd_ok hrun
    obtain ⟨-, db₁, hstores, hproject⟩ := persistCandidate_ok hrun
    rcases projectCandidate_ok hproject with ⟨-, rfl⟩ | ⟨-, hproject⟩
    · exact .of_stores hstores
    · exact (Grows.of_stores hstores).trans (.of_project hproject)
  | projectApproved id key projectedAt =>
    rcases projectApproved_ok hrun with rfl | ⟨row, -, hproject⟩
    · exact .refl _
    · exact .of_project hproject
  | retract id reviewerId reason e createdAt =>
    obtain ⟨db₀, db₁, hevent, hreview, rfl⟩ := retract_ok hrun
    exact ((Grows.of_insertEvent hevent).trans (.of_insertReview hreview)).trans (.of_eq rfl rfl rfl)
  | correct original replacement reviewerId reason e createdAt =>
    obtain ⟨id, hrun⟩ := map_snd_ok hrun
    obtain ⟨db₀, db₁, db₂, db₃, hevent, h₁, h₂, h₃, h₄⟩ := correct_ok hrun
    have hrow := Grows.of_stores (MemoryDb.insertAssertion_ok h₁)
    have hevidence := Grows.of_stores (MemoryDb.insertEvidence_ok h₂).1
    have hunproject : Grows db₃.toMemoryTables
        (db₃.unproject (closure db₃.ancestorEdges [original.assertionId])).toMemoryTables := .of_eq rfl rfl rfl
    exact ((((Grows.of_insertEvent hevent).trans hrow).trans hevidence).trans (.of_insertReview h₃)).trans
      (hunproject.trans (.of_project h₄))
  | tombstoneSourceEvent conversationId eventSeq requestedBy requestedAt =>
    obtain ⟨report, hrun⟩ := map_snd_ok hrun
    obtain ⟨-, -, hhides⟩ := tombstoneSourceEvent_ok hrun
    exact .of_eq hhides.assertions hhides.evidence hhides.reviews

end MemoryAssertionStore

end Execlaw
