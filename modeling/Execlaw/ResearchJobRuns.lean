import Execlaw.ResearchJobs
/-!
# ResearchJobRuns — the life of a research job

Over every order of the statements of the supervisor, of runners that may be stale and of the operator: a finished job
stays as it is but for the scrub of its deletion, `finished_at` is set exactly in the finished states, a job is claimed
once each time it is pending, and a tombstone hides the job from every reader for good.
-/
namespace Execlaw

open Table Calls

namespace ResearchJobStore

/-! ## What a call makes of one job -/

/-- `finished_at` is set exactly in the finished states. -/
def Stamped (r : ResearchJobRow) : Prop := r.finishedAt.isSome = r.status.isTerminal

theorem stamped_scrub {r : ResearchJobRow} (h : Stamped r) : Stamped (scrub r) := by
  unfold Stamped scrub
  exact h

def view (t : ResearchTables) (id : String) : Option ResearchJobRow × Bool := (t.jobs.row id, t.tombstoned id)

/-- **What a call makes of a job**: nothing; it is stored, or written while it is active; or it is tombstoned once
finished, and its row removed after that. -/
inductive JobMove : Option ResearchJobRow × Bool → Option ResearchJobRow × Bool → Prop
  | still (v : Option ResearchJobRow × Bool) : JobMove v v
  | stored {r : ResearchJobRow} (stamped : Stamped r) : JobMove (none, false) (some r, false)
  | wrote {r r' : ResearchJobRow} {b : Bool} (active : r.status.isTerminal = false) (stamped : Stamped r → Stamped r') :
      JobMove (some r, b) (some r', b)
  | tombstoned {r : ResearchJobRow} (finished : r.status.isTerminal = true) :
      JobMove (some r, false) (some (scrub r), true)
  | removed {r : ResearchJobRow} (finished : r.status.isTerminal = true) : JobMove (some r, true) (none, true)

structure JobOk (v : Option ResearchJobRow × Bool) : Prop where
  stamped : ∀ r, v.1 = some r → Stamped r
  finished : v.2 = true → ∀ r, v.1 = some r → r.status.isTerminal = true
  scrubbed : v.2 = true → ∀ r, v.1 = some r → scrub r = r

variable {v v' : Option ResearchJobRow × Bool}

theorem JobMove.ok (h : JobMove v v') (hok : JobOk v) : JobOk v' := by
  cases h with
  | still => exact hok
  | stored stamped =>
    exact ⟨fun _ h => Option.some.inj h ▸ stamped, fun h => (by cases h), fun h => (by cases h)⟩
  | wrote active stamped =>
    refine ⟨fun _ h => Option.some.inj h ▸ stamped (hok.stamped _ rfl), fun hb => ?_, fun hb => ?_⟩ <;>
      exact absurd (hok.finished hb _ rfl) (by simp [active])
  | tombstoned finished =>
    refine ⟨fun _ h => ?_, fun _ _ h => ?_, fun _ _ h => ?_⟩ <;> obtain rfl := Option.some.inj h
    · exact stamped_scrub (hok.stamped _ rfl)
    · exact finished
    · rfl
  | removed => exact ⟨fun _ h => (by cases h), fun _ _ h => (by cases h), fun _ _ h => (by cases h)⟩

inductive Settled (r : ResearchJobRow) : Option ResearchJobRow × Bool → Prop
  | kept (b : Bool) : Settled r (some r, b)
  | scrubbed : Settled r (some (scrub r), true)
  | removed : Settled r (none, true)

theorem Settled.move {r : ResearchJobRow} (hr : r.status.isTerminal = true) (h : Settled r v) (hmove : JobMove v v') :
    Settled r v' := by
  cases hmove with
  | still => exact h
  | stored => cases h
  | wrote active =>
    -- a finished row is not written
    cases h with
    | kept => exact absurd hr (by simp [active])
    | scrubbed => exact absurd hr (by simpa [scrub] using active)
  | tombstoned =>
    cases h with
    | kept => exact .scrubbed
  | removed => exact .removed

theorem JobMove.tombstone_kept (h : JobMove v v') (hv : v.2 = true) : v'.2 = true := by
  cases h with
  | still | wrote => exact hv
  | stored => cases hv
  | tombstoned | removed => rfl

/-! ## Each statement -/

section Statements

variable {t t' : ResearchTables}

structure Careful (c : JobChange) : Prop where
  active : ∀ r, c.takes r = true → r.status.isTerminal = false
  stamped : ∀ r, c.takes r = true → Stamped r → Stamped (c.set r)

theorem update_move {id : String} {c : JobChange} (hc : Careful c) (j : String) :
    JobMove (view t j) (view (update id c t).2 j) := by
  have hdel : (update id c t).2.tombstoned j = t.tombstoned j := rfl
  rw [view, view, hdel]
  cases hrow : t.jobs.row j with
  | none =>
    have hnone : (update id c t).2.jobs.row j = none := Keyed.row_update_eq_none hrow
    rw [hnone]
    exact .still _
  | some r =>
    rcases Keyed.row_update_cases (k := id) (c := c) hrow with h | ⟨-, htakes, h⟩
    · rw [show (update id c t).2.jobs.row j = some r from h]
      exact .still _
    · rw [show (update id c t).2.jobs.row j = some (c.set r) from h]
      exact .wrote (hc.active r htakes) (hc.stamped r htakes)

theorem updateOrNotFound_snd (id : String) (c : JobChange) : (updateOrNotFound id c t).2 = (update id c t).2 := by
  unfold updateOrNotFound
  split <;> rfl

theorem careful_active {f : ResearchJobRow → ResearchJobRow} {hf : ∀ r, (f r).id = r.id}
    (h : ∀ r, r.status.isTerminal = false → Stamped r → Stamped (f r)) :
    Careful ⟨fun r => !r.status.isTerminal, f, hf, fun _ h _ => h⟩ :=
  ⟨fun r htakes => by simpa using htakes, fun r htakes => h r (by simpa using htakes)⟩

theorem careful_advance {source target : ResearchJobStatus} (hsource : source.isTerminal = false)
    (htarget : target.isTerminal = false) (now : Int) : Careful (advance source target now) := by
  have hactive : ∀ r, (advance source target now).takes r = true → r.status.isTerminal = false := by
    intro r htakes
    rw [show r.status = source from beq_iff_eq.1 htakes]
    exact hsource
  refine ⟨hactive, fun r htakes hr => ?_⟩
  have hopen : r.finishedAt.isSome = false := hr.trans (hactive r htakes)
  exact hopen.trans htarget.symm

theorem careful_claim (cardId : String) (now : Int) : Careful (claimChange cardId now) := by
  refine ⟨fun r htakes => ?_, fun r htakes hr => ?_⟩ <;>
    have hstatus : r.status = .pending := beq_iff_eq.1 htakes
  · rw [hstatus]
    rfl
  · rw [Stamped, hstatus] at hr
    exact hr

theorem careful_planned (blob : List UInt8) (now : Int) : Careful (plannedChange blob now) := by
  refine ⟨fun r htakes => ?_, fun r htakes hr => ?_⟩ <;>
    have hstatus : r.status = .planning := beq_iff_eq.1 htakes
  · rw [hstatus]
    rfl
  · rw [Stamped, hstatus] at hr
    exact hr

theorem careful_resume (merged : String) (now : Int) : Careful (resumeChange merged now) := by
  refine ⟨fun r htakes => ?_, fun r htakes hr => ?_⟩ <;>
    have hstatus : r.status = .awaitingInput := beq_iff_eq.1 htakes
  · rw [hstatus]
    rfl
  · rw [Stamped, hstatus] at hr
    exact hr

theorem careful_notes (blob : List UInt8) (now : Int) : Careful (notesChange blob now) :=
  careful_active fun _ _ hr => hr

theorem careful_workspace (path : String) (now : Int) : Careful (workspaceChange path now) :=
  careful_active fun _ _ hr => hr

theorem careful_awaiting (question : String) (now : Int) : Careful (awaitingChange question now) :=
  careful_active fun _ hactive hr => hr.trans hactive

theorem careful_finish {terminal : ResearchJobStatus} (h : terminal.isTerminal = true)
    (error attachmentId : Option String) (now : Int) : Careful (finishChange terminal error attachmentId now) :=
  careful_active fun _ _ _ => h.symm

theorem careful_cancel (reason : Option String) (now : Int) : Careful (cancelChange reason now) := by
  refine ⟨fun r htakes => ?_, fun _ _ _ => rfl⟩
  have hmem : r.status ∈ cancellable := List.contains_iff_mem.1 htakes
  revert hmem
  cases r.status <;> decide

theorem careful_fail (reason : String) (now : Int) : Careful (failChange reason now) := by
  refine ⟨fun r htakes => ?_, fun _ _ _ => rfl⟩
  have hmem : r.status ∈ interrupted := List.contains_iff_mem.1 htakes
  revert hmem
  cases r.status <;> decide

theorem markFailedWhereActive_move (reason : String) (now : Int) (j : String) :
    JobMove (view t j) (view (markFailedWhereActive reason now t).2 j) := by
  have hdel : (markFailedWhereActive reason now t).2.tombstoned j = t.tombstoned j := rfl
  rw [view, view, hdel]
  rcases t.jobs.row_updateAll_cases (failChange reason now) j with h | ⟨r, hr, htakes, h⟩
  · rw [show (markFailedWhereActive reason now t).2.jobs.row j = t.jobs.row j from h]
    exact .still _
  · rw [show (markFailedWhereActive reason now t).2.jobs.row j = some _ from h, hr]
    exact .wrote ((careful_fail reason now).active r htakes) ((careful_fail reason now).stamped r htakes)

theorem nextPending_eq_some {r : ResearchJobRow} (h : nextPending t = some r) :
    r ∈ t.jobs.rows ∧ r.status = .pending ∧ t.tombstoned r.id = false := by
  have hmem := (mem_orderBy _).1 (List.mem_of_mem_head? h)
  simpa using hmem

theorem claimNextPending_move (cardId : String) (now : Int) (j : String) :
    JobMove (view t j) (view (claimNextPending cardId now t).2 j) := by
  unfold claimNextPending
  split
  · exact .still _
  · exact update_move (careful_claim cardId now) j

theorem resumeWithClarification_move (id clarification : String) (now : Int) (j : String) :
    JobMove (view t j) (view (resumeWithClarification id clarification now t).2 j) := by
  unfold resumeWithClarification
  split
  · exact .still _
  · exact update_move (careful_resume _ now) j

theorem insertTx_ok {row : ResearchJobRow} (h : insertTx row t = .ok ((), t')) :
    t.tombstoned row.id = false ∧ t.jobs.row row.id = none ∧ t'.deletions = t.deletions ∧
      ∀ j, t'.jobs.row j = (t.jobs.row j).or (if row.id = j then some row else none) := by
  unfold insertTx at h
  split at h
  · cases h
  next hfree =>
  split at h
  · cases h
  next jobs hjobs =>
  obtain ⟨hnone, hrows⟩ := Keyed.insert?_eq_some hjobs
  cases (Prod.ext_iff.1 (Except.ok.inj h)).2
  exact ⟨by simpa using hfree, hnone, rfl, hrows⟩

theorem insertTx_move {row : ResearchJobRow} (hrow : Stamped row) (h : insertTx row t = .ok ((), t')) (j : String) :
    JobMove (view t j) (view t' j) := by
  obtain ⟨hfree, hnone, hdel, hrows⟩ := insertTx_ok h
  have htomb : t'.tombstoned j = t.tombstoned j := by
    rw [ResearchTables.tombstoned, hdel]
    rfl
  rw [view, view, htomb, hrows]
  by_cases hj : row.id = j
  · subst hj
    rw [hnone, hfree, if_pos rfl]
    exact .stored hrow
  · rw [if_neg hj, Option.or_none]
    exact .still _

theorem insertPending_move (id conversationId query callerTrust : String) (overridesJson : Option (List UInt8))
    (now : Int) (j : String) :
    JobMove (view t j) (view (insertPending id conversationId query callerTrust overridesJson now t).2 j) := by
  unfold insertPending
  split
  · exact .still _
  split
  · exact .still _
  rcases transact_cases (insertTx (newJob id conversationId (trim query) callerTrust overridesJson now)) t with
    ⟨e, -, h⟩ | ⟨a, t', hok, h⟩ <;> rw [h]
  · exact .still _
  · have hstamped : Stamped (newJob id conversationId (trim query) callerTrust overridesJson now) := rfl
    exact insertTx_move hstamped hok j

variable {d : ResearchDeletionJob}

theorem tombstoned_append {deletions : Keyed ResearchDeletionJob.deletionId ResearchDeletionJob.Ok}
    {jobs : Keyed ResearchJobRow.id (fun _ => True)} (hrows : deletions.rows = t.deletions.rows ++ [d]) (j : String) :
    (⟨jobs, deletions⟩ : ResearchTables).tombstoned j = (t.tombstoned j || d.resourceId == j) := by
  simp [ResearchTables.tombstoned, hrows]

theorem insertDeletion_ok {hd : d.Ok} {deletionId : String} (h : insertDeletion d hd t = .ok (deletionId, t')) :
    t'.jobs = t.jobs.update d.resourceId scrubChange ∧
      ∀ j, t'.tombstoned j = (t.tombstoned j || d.resourceId == j) := by
  unfold insertDeletion at h
  split at h
  · cases h
  next deletions hins =>
  cases (Prod.ext_iff.1 (Except.ok.inj h)).2
  exact ⟨rfl, tombstoned_append (Keyed.rows_insert? hins)⟩

theorem insertDeletion_move {hd : d.Ok} {deletionId : String} {r : ResearchJobRow}
    (hfree : t.tombstoned d.resourceId = false) (hr : t.jobs.row d.resourceId = some r)
    (hfinished : r.status.isTerminal = true) (h : insertDeletion d hd t = .ok (deletionId, t')) (j : String) :
    JobMove (view t j) (view t' j) := by
  obtain ⟨hjobs, htomb⟩ := insertDeletion_ok h
  rw [view, view, htomb, hjobs]
  by_cases hj : j = d.resourceId
  · subst hj
    have hscrub : (t.jobs.update d.resourceId scrubChange).row d.resourceId = some (scrub r) :=
      Keyed.row_update_of_changed hr hfinished
    rw [hr, hfree, hscrub]
    simpa using JobMove.tombstoned hfinished
  · have hother : (t.jobs.update d.resourceId scrubChange).row j = t.jobs.row j := Keyed.row_update_of_ne _ hj _
    have hne : (d.resourceId == j) = false := by simpa using Ne.symm hj
    rw [hother, hne, Bool.or_false]
    exact .still _

variable {candidateToString : ResearchPurgeCandidate → Except String String}

theorem requestDeletionTx_ok {jobId requestedBy requestSource candidateId deletionId : String} {now : Int}
    (h : requestDeletionTx candidateToString jobId requestedBy requestSource now candidateId t = .ok (deletionId, t')) :
    (t' = t ∧ t.tombstoned jobId = true) ∨
      ∃ r d, ∃ hd : d.Ok, t.tombstoned jobId = false ∧ t.jobs.row jobId = some r ∧ r.status.isTerminal = true ∧
        d.resourceId = jobId ∧ insertDeletion d hd t = .ok (deletionId, t') := by
  unfold requestDeletionTx at h
  split at h
  · next d hd =>
    cases (Prod.ext_iff.1 (Except.ok.inj h)).2
    exact .inl ⟨rfl, by rw [← t.isSome_deletionOf, hd, Option.isSome_some]⟩
  next hnone =>
  split at h
  · cases h
  next r hr =>
  split at h
  · cases h
  next hfinished =>
  split at h
  · cases h
  next payload _ =>
  refine .inr ⟨r, _, newDeletion_ok .., ?_, hr, by simpa using hfinished, rfl, h⟩
  rw [← t.isSome_deletionOf, hnone, Option.isSome_none]

theorem requestDeletion_move (jobId requestedBy requestSource : String) (now : Int) (candidateId j : String) :
    JobMove (view t j)
      (view (requestDeletion candidateToString jobId requestedBy requestSource now candidateId t).2 j) := by
  unfold requestDeletion
  split
  · exact .still _
  rcases transact_cases (requestDeletionTx candidateToString jobId requestedBy requestSource now candidateId) t with
    ⟨e, -, h⟩ | ⟨deletionId, t', hok, h⟩ <;> rw [h]
  · exact .still _
  · rcases requestDeletionTx_ok hok with ⟨rfl, -⟩ | ⟨r, d, hd, hfree, hr, hfinished, rfl, hins⟩
    · exact .still _
    · exact insertDeletion_move hfree hr hfinished hins j

theorem tombstoned_update (jobs : Keyed ResearchJobRow.id (fun _ => True)) (deletionId : String) {c : DeletionChange}
    (hc : ∀ d, (c.set d).resourceId = d.resourceId) (j : String) :
    (⟨jobs, t.deletions.update deletionId c⟩ : ResearchTables).tombstoned j = t.tombstoned j := by
  have hmap : ∀ d, ((if d.deletionId = deletionId then c.apply d else d).resourceId == j) = (d.resourceId == j) := by
    intro d
    split
    · unfold Change.apply
      split
      · rw [hc]
      · rfl
    · rfl
  simp only [ResearchTables.tombstoned, Keyed.update, updateKey, List.any_map]
  exact congrArg (fun p => t.deletions.rows.any p) (funext hmap)

theorem completeDeletion_move (deletionId : String) (now : Int) (j : String) :
    JobMove (view t j) (view (completeDeletion deletionId now t).2 j) := by
  unfold completeDeletion
  split
  · exact .still _
  next d hd =>
  have hrow := (Option.filter_eq_some_iff.1 hd).1
  have htomb := tombstoned_update (t := t) (t.jobs.remove d.resourceId (fun r => r.status.isTerminal)) deletionId
    (c := completeChange now) (fun _ => rfl) j
  rw [view, view, htomb]
  show JobMove (t.jobs.row j, t.tombstoned j)
    ((t.jobs.remove d.resourceId (fun r => r.status.isTerminal)).row j, t.tombstoned j)
  rw [Keyed.row_remove]
  split
  · next hj =>
    have hdead : t.tombstoned j = true := by
      exact List.any_eq_true.2 ⟨d, (Keyed.row_iff.1 hrow).1, by simp [hj]⟩
    cases hr : t.jobs.row j with
    | none => exact .still _
    | some r =>
      cases hfinished : r.status.isTerminal with
      | false => simpa [Option.filter, hfinished] using JobMove.still (some r, t.tombstoned j)
      | true =>
        rw [hdead]
        simpa [Option.filter, hfinished] using JobMove.removed hfinished
  · exact .still _

theorem recordDeletionFailure_move (deletionId error : String) (now : Int) (j : String) :
    JobMove (view t j) (view (recordDeletionFailure deletionId error now t) j) := by
  have htomb := tombstoned_update (t := t) t.jobs deletionId (c := failureChange error now) (fun _ => rfl) j
  rw [view, view, show (recordDeletionFailure deletionId error now t).tombstoned j = t.tombstoned j from htomb]
  exact .still _

end Statements

section Runs

variable {Plan Note : Type} (codec : ResearchCodec Plan Note)

theorem answer_snd {α : Type} (f : α → Reply) (p : Except ResearchError α × ResearchTables) : (answer f p).2 = p.2 := by
  rcases p with ⟨e | a, t⟩ <;> rfl

theorem setPlanned_move (t : ResearchTables) (id : String) (plan : Plan) (now : Int) (j : String) :
    JobMove (view t j) (view (setPlanned codec id plan now t).2 j) := by
  unfold setPlanned
  split
  · exact .still _
  · rw [updateOrNotFound_snd]
    exact update_move (careful_planned _ now) j

theorem setNotes_move (t : ResearchTables) (id : String) (notes : List Note) (now : Int) (j : String) :
    JobMove (view t j) (view (setNotes codec id notes now t).2 j) := by
  unfold setNotes
  split
  · exact .still _
  · rw [updateOrNotFound_snd]
    exact update_move (careful_notes _ now) j

theorem finish_move (t : ResearchTables) (id : String) (terminal : ResearchJobStatus)
    (error attachmentId : Option String) (now : Int) (j : String) :
    JobMove (view t j) (view (finish id terminal error attachmentId now t).2 j) := by
  unfold finish
  split
  · exact .still _
  · next h => exact update_move (careful_finish (by simpa using h) error attachmentId now) j

theorem exec_move (t : ResearchTables) (c : Call Plan Note) (j : String) :
    JobMove (view t j) (view (exec codec t c).2 j) := by
  cases c with
  | insertPending id conversationId query callerTrust overridesJson now =>
    rw [exec, answer_snd]
    exact insertPending_move id conversationId query callerTrust overridesJson now j
  | get | listAll | listForConversation => exact .still _
  | claimNextPending cardId now => exact claimNextPending_move cardId now j
  | setWorkspacePath id path now =>
    rw [exec, answer_snd, setWorkspacePath, updateOrNotFound_snd]
    exact update_move (careful_workspace path now) j
  | setPlanned id plan now =>
    rw [exec, answer_snd]
    exact setPlanned_move codec t id plan now j
  | markGathering id now | markSynthesizing id now => exact update_move (careful_advance rfl rfl now) j
  | setNotes id notes now =>
    rw [exec, answer_snd]
    exact setNotes_move codec t id notes now j
  | setAwaitingInput id question now => exact update_move (careful_awaiting question now) j
  | resumeWithClarification id clarification now => exact resumeWithClarification_move id clarification now j
  | finish id terminal error attachmentId now =>
    rw [exec, answer_snd]
    exact finish_move t id terminal error attachmentId now j
  | cancelActive id reason now => exact update_move (careful_cancel reason now) j
  | markFailedWhereActive reason now => exact markFailedWhereActive_move reason now j
  | requestDeletion jobId requestedBy requestSource now candidateId =>
    rw [exec, answer_snd]
    exact requestDeletion_move jobId requestedBy requestSource now candidateId j
  | recordDeletionFailure deletionId error now => exact recordDeletionFailure_move deletionId error now j
  | completeDeletion deletionId now => exact completeDeletion_move deletionId now j

theorem jobOk_after (calls : List (Call Plan Note)) (j : String) :
    JobOk (view (after (exec codec) ResearchTables.empty calls) j) :=
  after_invariant (I := fun t => JobOk (view t j)) (fun t c h => (exec_move codec t c j).ok h)
    ⟨fun _ h => (by cases h), fun h => (by cases h), fun h => (by cases h)⟩ calls

variable {t : ResearchTables}

theorem settled_after {j : String} {r : ResearchJobRow} (hrow : t.jobs.row j = some r) (hr : r.status.isTerminal = true)
    (calls : List (Call Plan Note)) : Settled r (view (after (exec codec) t calls) j) := by
  refine after_invariant (I := fun t => Settled r (view t j)) (fun t c h => h.move hr (exec_move codec t c j)) ?_ calls
  rw [view, hrow]
  exact .kept _

theorem tombstoned_after {j : String} (h : t.tombstoned j = true) (calls : List (Call Plan Note)) :
    (after (exec codec) t calls).tombstoned j = true :=
  after_invariant (I := fun t => t.tombstoned j = true) (fun t c h => (exec_move codec t c j).tombstone_kept h) h calls

def isPending (id : String) (t : ResearchTables) : Bool := (t.jobs.row id).any (fun r => r.status == .pending)

def claims (id : String) (t : ResearchTables) : Call Plan Note → Bool
  | .claimNextPending cardId now => (claimNextPending cardId now t).1 == some id
  | _ => false

def queues (id : String) (t : ResearchTables) (c : Call Plan Note) : Bool :=
  !isPending id t && isPending id (exec codec t c).2

variable {id : String}

theorem claims_pending {c : Call Plan Note} (h : claims id t c = true) :
    isPending id t = true ∧ isPending id (exec codec t c).2 = false := by
  cases c with
  | claimNextPending cardId now =>
    simp only [claims, claimNextPending] at h
    cases hnext : nextPending t with
    | none => simp [hnext] at h
    | some r =>
      obtain ⟨hmem, hstatus, -⟩ := nextPending_eq_some hnext
      have hid : r.id = id := by simpa [hnext] using h
      have hrow : t.jobs.row id = some r := Keyed.row_iff.2 ⟨hmem, hid⟩
      have htakes : (claimChange cardId now).takes r = true := beq_iff_eq.2 hstatus
      have hafter : (exec codec t (.claimNextPending cardId now)).2.jobs.row id = some ((claimChange cardId now).set r) := by
        simp only [exec, reply, claimNextPending, hnext, update, hid]
        exact Keyed.row_update_of_changed hrow htakes
      rw [isPending, isPending, hrow, hafter]
      exact ⟨by simp [hstatus], rfl⟩
  | _ => cases h

theorem count_claims_le (id : String) : ∀ (t : ResearchTables) (calls : List (Call Plan Note)),
    count (exec codec) (claims id) t calls ≤ count (exec codec) (queues codec id) t calls + (isPending id t).toNat
  | _, [] => Nat.zero_le _
  | t, c :: calls => by
    have ih := count_claims_le id (exec codec t c).2 calls
    rw [count, count]
    have hstep : (claims id t c).toNat + (isPending id (exec codec t c).2).toNat ≤
        (queues codec id t c).toNat + (isPending id t).toNat := by
      cases hclaims : claims id t c with
      | true =>
        obtain ⟨hbefore, hafter⟩ := claims_pending codec hclaims
        simp [hbefore, hafter]
      | false => cases hbefore : isPending id t <;> cases hafter : isPending id (exec codec t c).2 <;>
          simp [queues, hbefore, hafter]
    omega

/-- **What a tombstone hides**, in one state of the tables. -/
structure Hidden (id : String) (t : ResearchTables) : Prop where
  get : get id t = none
  list : ∀ r ∈ listAll t, r.id ≠ id
  listed : ∀ conversationId, ∀ r ∈ listForConversation conversationId t, r.id ≠ id
  claim : ∀ cardId now, (claimNextPending cardId now t).1 ≠ some id
  claimed : ∀ k r, claimed k t = some r → r.id ≠ id
  scrubbed : ∀ r, t.jobs.row id = some r → r.query = "" ∧ r.planJson = none ∧ r.notesJson = none
  insert : ∀ conversationId query callerTrust overridesJson now,
    ∃ e, insertPending id conversationId query callerTrust overridesJson now t = (.error e, t)
  inserted : ∀ answer r, inserted id answer t ≠ .ok r

theorem get_eq_some {r : ResearchJobRow} (h : get id t = some r) :
    t.jobs.row id = some r ∧ t.tombstoned id = false := by
  obtain ⟨hrow, hfree⟩ := Option.filter_eq_some_iff.1 h
  rw [Keyed.key_of_row hrow] at hfree
  exact ⟨hrow, by simpa using hfree⟩

theorem get_tombstoned (h : t.tombstoned id = true) : get id t = none := by
  refine Option.eq_none_iff_forall_ne_some.2 fun r hr => ?_
  rw [(get_eq_some hr).2] at h
  cases h

theorem hidden_of_tombstoned (h : t.tombstoned id = true) (hok : JobOk (view t id)) : Hidden id t where
  get := get_tombstoned h
  list := by
    rintro r hr rfl
    have hmem := (mem_orderBy _).1 hr
    simp [h] at hmem
  listed := by
    rintro conversationId r hr rfl
    have hmem := (mem_orderBy _).1 hr
    simp [h] at hmem
  claim := by
    intro cardId now hclaim
    unfold claimNextPending at hclaim
    split at hclaim
    · cases hclaim
    next r hnext =>
    cases hclaim
    rw [(nextPending_eq_some hnext).2.2] at h
    cases h
  claimed := by
    rintro k r hk rfl
    obtain ⟨k, rfl, hget⟩ := Option.bind_eq_some_iff.1 hk
    obtain ⟨hrow, hfree⟩ := get_eq_some hget
    rw [← Keyed.key_of_row hrow, h] at hfree
    cases hfree
  scrubbed := by
    intro r hr
    rw [← hok.scrubbed h r hr]
    exact ⟨rfl, rfl, rfl⟩
  insert := by
    intro conversationId query callerTrust overridesJson now
    unfold insertPending
    split
    · exact ⟨_, rfl⟩
    split
    · exact ⟨_, rfl⟩
    have htx : insertTx (newJob id conversationId (trim query) callerTrust overridesJson now) t =
        .error (.invariant "research job id is protected by a privacy tombstone") := if_pos h
    rw [transact_of_error htx]
    exact ⟨_, rfl⟩
  inserted := by
    intro answer r hr
    unfold inserted at hr
    split at hr
    · cases hr
    · rw [get_tombstoned h] at hr
      cases hr

/-- **An accepted deletion** is of a finished job, or of one that was tombstoned before; and the job is tombstoned. -/
theorem requestDeletion_accepted {t t' : ResearchTables} {jobId requestedBy requestSource candidateId deletionId : String}
    {now : Int} (hok : JobOk (view t jobId))
    (h : requestDeletion codec.candidateToString jobId requestedBy requestSource now candidateId t = (.ok deletionId, t')) :
    (t.tombstoned jobId = true ∨ (t.jobs.row jobId).isSome = true) ∧
      (∀ r, t.jobs.row jobId = some r → r.status.isTerminal = true) ∧ t'.tombstoned jobId = true := by
  unfold requestDeletion at h
  split at h
  · cases h
  rcases transact_cases
    (requestDeletionTx codec.candidateToString jobId requestedBy requestSource now candidateId) t with
    ⟨e, -, htx⟩ | ⟨d, t'', hbody, htx⟩ <;> rw [htx] at h
  · cases h
  cases (Prod.ext_iff.1 h).2
  rcases requestDeletionTx_ok hbody with ⟨rfl, htomb⟩ | ⟨r, d, hd, hfree, hr, hfinished, rfl, hins⟩
  · exact ⟨.inl htomb, hok.finished htomb, htomb⟩
  · refine ⟨.inr (by simp [hr]), fun q hq => ?_, ?_⟩
    · rw [hr] at hq
      exact Option.some.inj hq ▸ hfinished
    · rw [(insertDeletion_ok hins).2]
      simp

/-- **The life of every job**, from a state of the tables on. -/
structure Lifecycle (t : ResearchTables) (later : List (Call Plan Note)) : Prop where
  settled : ∀ id r, t.jobs.row id = some r → r.status.isTerminal = true →
    Settled r (view (after (exec codec) t later) id)
  finished : ∀ r ∈ t.jobs.rows, r.finishedAt.isSome = r.status.isTerminal
  claimed : ∀ id,
    count (exec codec) (claims id) t later ≤ count (exec codec) (queues codec id) t later + (isPending id t).toNat
  accepted : ∀ jobId requestedBy requestSource now candidateId deletionId t',
    requestDeletion codec.candidateToString jobId requestedBy requestSource now candidateId t = (.ok deletionId, t') →
    (t.tombstoned jobId = true ∨ (t.jobs.row jobId).isSome = true) ∧
      (∀ r, t.jobs.row jobId = some r → r.status.isTerminal = true) ∧ t'.tombstoned jobId = true
  hidden : ∀ id, t.tombstoned id = true → Hidden id (after (exec codec) t later)

/-- **Research jobs keep their lifecycle**, in every order of the statements. -/
theorem research_lifecycle (earlier later : List (Call Plan Note)) :
    Lifecycle codec (after (exec codec) ResearchTables.empty earlier) later where
  settled := fun _ _ hrow hr => settled_after codec hrow hr later
  finished := fun r hr => (jobOk_after codec earlier r.id).stamped r (Keyed.row_iff.2 ⟨hr, rfl⟩)
  claimed := fun id => count_claims_le codec id _ later
  accepted := fun jobId _ _ _ _ _ _ h => requestDeletion_accepted codec (jobOk_after codec earlier jobId) h
  hidden := by
    intro id h
    have hok := jobOk_after codec (earlier ++ later) id
    rw [after_append] at hok
    exact hidden_of_tombstoned (tombstoned_after codec h later) hok

end Runs

end ResearchJobStore

end Execlaw
