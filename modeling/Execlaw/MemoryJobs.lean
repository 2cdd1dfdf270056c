import Execlaw.Calls
import Execlaw.Keyed
import Execlaw.Outbox
import Mathlib.Data.Prod.Lex
import Mathlib.Data.String.Basic
/-!
# MemoryJobs — durable memory extraction jobs (`core/src/memory_assertions.rs`)

A job is claimed under a lease, and its worker completes it or hands it back.  A claim takes a pending job that is due
or a running job whose lease has run out, while attempts remain.  Identifiers the source draws at random and the
events of the log are arguments.
-/
namespace Execlaw

open Table

inductive MemoryAssertionError
  | db (error : DbError)
  | notFound (what : String)
  | invalid (msg : String)
  | corrupt (msg : String)

inductive MemoryJobKind | memoryExtract | skillCapture
deriving DecidableEq

inductive MemoryJobStatus | pending | running | completed | failed
deriving DecidableEq

structure NewMemoryJob where
  kind : MemoryJobKind
  conversationId : String
  eventStartSeq : Int
  eventEndSeq : Int
  runId : String
  policyHash : String
  modelHash : String
  maxAttempts : Int
  now : Int

structure MemoryJob where
  jobId : String
  kind : MemoryJobKind
  conversationId : String
  eventStartSeq : Int
  eventEndSeq : Int
  runId : String
  policyHash : String
  modelHash : String
  authorityScope : Option String
  authorityTrustClass : Option String
  attempt : Int
  maxAttempts : Int
deriving DecidableEq

structure MemoryJobRow where
  job : MemoryJob
  status : MemoryJobStatus
  nextAttemptAt : Int
  leaseOwner : Option String
  leaseExpiresAt : Option Int
  lastError : Option String
  createdAt : Int
  completedAt : Option Int

namespace MemoryJobRow

def jobId (r : MemoryJobRow) : String := r.job.jobId

structure Ok (r : MemoryJobRow) : Prop where
  range : 0 < r.job.eventStartSeq ∧ r.job.eventStartSeq ≤ r.job.eventEndSeq
  attempts : 0 ≤ r.job.attempt ∧ 0 < r.job.maxAttempts
  lease : r.leaseOwner.isSome = r.leaseExpiresAt.isSome
  leased : r.status = .running ↔ r.leaseOwner.isSome = true
  completed : r.completedAt.isSome = true → r.status = .completed

/-- The `WHERE` of a claim. -/
def claimable (now : Int) (r : MemoryJobRow) : Bool :=
  decide (r.job.attempt < r.job.maxAttempts) &&
    (r.status == .pending && decide (r.nextAttemptAt ≤ now) ||
      r.status == .running && r.leaseExpiresAt.any (fun e => decide (e ≤ now)))

/-- The `WHERE` of a completion and of a retry. -/
def heldBy (owner : String) (r : MemoryJobRow) : Bool := r.status == .running && r.leaseOwner == some owner

def claim (owner : String) (leaseExpiresAt : Int) (r : MemoryJobRow) : MemoryJobRow :=
  { r with
    job := { r.job with attempt := r.job.attempt + 1 }
    status := .running, leaseOwner := some owner, leaseExpiresAt := some leaseExpiresAt }

def complete (now : Int) (r : MemoryJobRow) : MemoryJobRow :=
  { r with
    status := .completed, leaseOwner := none, leaseExpiresAt := none, completedAt := some now, lastError := none }

def retry (error : String) (nextAttemptAt : Int) (r : MemoryJobRow) : MemoryJobRow :=
  { r with
    status := if r.job.maxAttempts ≤ r.job.attempt then .failed else .pending
    leaseOwner := none, leaseExpiresAt := none, nextAttemptAt := nextAttemptAt, lastError := some error }

def redrive (now : Int) (r : MemoryJobRow) : MemoryJobRow :=
  { r with
    job := { r.job with attempt := 0 }
    status := .pending, leaseOwner := none, leaseExpiresAt := none, nextAttemptAt := now, completedAt := none
    lastError := none }

def identity (j : MemoryJob) : MemoryJobKind × String × Int × Int × String × String :=
  (j.kind, j.conversationId, j.eventStartSeq, j.eventEndSeq, j.policyHash, j.modelHash)

end MemoryJobRow

abbrev MemoryJobs := Keyed MemoryJobRow.jobId MemoryJobRow.Ok

def NewMemoryJob.row (job : NewMemoryJob) (jobId : String) (authority : Option (String × String)) : MemoryJobRow where
  job := ⟨jobId, job.kind, job.conversationId, job.eventStartSeq, job.eventEndSeq, job.runId, job.policyHash,
    job.modelHash, authority.map Prod.fst, authority.map Prod.snd, 0, job.maxAttempts⟩
  status := .pending
  nextAttemptAt := job.now
  leaseOwner := none
  leaseExpiresAt := none
  lastError := none
  createdAt := job.now
  completedAt := none

/-- `INSERT OR IGNORE` passes over a row that breaks these checks. -/
structure NewMemoryJob.Checked (job : NewMemoryJob) : Prop where
  range : 0 < job.eventStartSeq ∧ job.eventStartSeq ≤ job.eventEndSeq
  attempts : 0 < job.maxAttempts

instance (job : NewMemoryJob) : Decidable job.Checked :=
  decidable_of_iff ((0 < job.eventStartSeq ∧ job.eventStartSeq ≤ job.eventEndSeq) ∧ 0 < job.maxAttempts)
    ⟨fun h => ⟨h.1, h.2⟩, fun h => ⟨h.range, h.attempts⟩⟩

theorem NewMemoryJob.Checked.ok {job : NewMemoryJob} (h : job.Checked) (jobId : String)
    (authority : Option (String × String)) : (job.row jobId authority).Ok :=
  ⟨h.range, ⟨Int.le_refl 0, h.attempts⟩, rfl, by simp [row], by simp [row]⟩

namespace MemoryJobStore

abbrev JobChange := Change MemoryJobRow.jobId MemoryJobRow.Ok

def claimChange (owner : String) (now leaseExpiresAt : Int) : JobChange where
  takes := MemoryJobRow.claimable now
  set := MemoryJobRow.claim owner leaseExpiresAt
  key_set := fun _ => rfl
  keeps_ok := by
    intro r h htakes
    refine ⟨h.range, ⟨Int.add_nonneg h.attempts.1 Int.one_nonneg, h.attempts.2⟩, rfl, by simp [MemoryJobRow.claim], ?_⟩
    intro hcompleted
    have hstatus := h.completed hcompleted
    simp [MemoryJobRow.claimable, hstatus] at htakes

def completeChange (owner : String) (now : Int) : JobChange where
  takes := MemoryJobRow.heldBy owner
  set := MemoryJobRow.complete now
  key_set := fun _ => rfl
  keeps_ok := fun _ h _ => ⟨h.range, h.attempts, rfl, by simp [MemoryJobRow.complete], fun _ => rfl⟩

def retryChange (owner error : String) (nextAttemptAt : Int) : JobChange where
  takes := MemoryJobRow.heldBy owner
  set := MemoryJobRow.retry error nextAttemptAt
  key_set := fun _ => rfl
  keeps_ok := by
    intro r h htakes
    refine ⟨h.range, h.attempts, rfl, ?_, ?_⟩
    · simp only [MemoryJobRow.retry]
      split <;> simp
    · intro hcompleted
      have hstatus := h.completed hcompleted
      simp [MemoryJobRow.heldBy, hstatus] at htakes

def redriveChange (now : Int) : JobChange where
  takes := fun r => r.status == .failed
  set := MemoryJobRow.redrive now
  key_set := fun _ => rfl
  keeps_ok := fun _ h _ => ⟨h.range, ⟨Int.le_refl 0, h.attempts.2⟩, rfl, by simp [MemoryJobRow.redrive],
    by simp [MemoryJobRow.redrive]⟩

def inLog (stored : String → Int → Bool) (job : NewMemoryJob) : Bool :=
  stored job.conversationId job.eventStartSeq && stored job.conversationId job.eventEndSeq

/-- `INSERT OR IGNORE INTO memory_jobs`, with the trigger that asks an extraction job for its authority. -/
def insertJob (stored : String → Int → Bool) (job : NewMemoryJob) (jobId : String)
    (authority : Option (String × String)) (t : MemoryJobs) : Except DbError MemoryJobs :=
  if job.kind = .memoryExtract ∧ authority = none then .error (.sqlite "memory_extract job requires host authority")
  else if t.rows.any (fun r => r.jobId == jobId ||
      MemoryJobRow.identity r.job == MemoryJobRow.identity (job.row jobId authority).job) then .ok t
  else if h : job.Checked then
    if inLog stored job then .ok (t.insertOrIgnore (job.row jobId authority) (h.ok jobId authority))
    else .error (.sqlite "FOREIGN KEY constraint failed")
  else .ok t

def insertAndSelect (stored : String → Int → Bool) (job : NewMemoryJob) (jobId : String)
    (authority : Option (String × String)) (t : MemoryJobs) : Except MemoryAssertionError String × MemoryJobs :=
  match insertJob stored job jobId authority t with
  | .error e => (.error (.db e), t)
  | .ok t' =>
    match t'.rows.find? (fun r => MemoryJobRow.identity r.job == MemoryJobRow.identity (job.row jobId authority).job) with
    | some r => (.ok r.jobId, t')
    | none => (.error (.db noRows), t')

def enqueue (stored : String → Int → Bool) (jobId : String) (job : NewMemoryJob) (t : MemoryJobs) :
    Except MemoryAssertionError String × MemoryJobs :=
  if job.eventStartSeq ≤ 0 ∨ job.eventEndSeq < job.eventStartSeq ∨ (trim job.policyHash).isEmpty ∨
      (trim job.modelHash).isEmpty ∨ job.maxAttempts ≤ 0 then
    (.error (.invalid "invalid durable memory job"), t)
  else insertAndSelect stored job jobId none t

def trustClasses : List String :=
  ["Controller", "Delegated", "KnownTrusted", "KnownLimited", "UnknownPending", "Blocked"]

def enqueueExtraction (stored : String → Int → Bool) (jobId : String) (job : NewMemoryJob)
    (authorityScope authorityTrustClass : String) (t : MemoryJobs) : Except MemoryAssertionError String × MemoryJobs :=
  if job.kind ≠ .memoryExtract ∨ job.eventStartSeq ≤ 0 ∨ job.eventEndSeq < job.eventStartSeq ∨
      (trim job.policyHash).isEmpty ∨ (trim job.modelHash).isEmpty ∨ (trim authorityScope).isEmpty ∨
      authorityTrustClass ∉ trustClasses then
    (.error (.invalid "invalid authorized memory extraction job"), t)
  else insertAndSelect stored job jobId (some (authorityScope, authorityTrustClass)) t

def firstClaimable (kind : MemoryJobKind) (now : Int) (t : MemoryJobs) : Option MemoryJobRow :=
  (orderBy (fun r => toLex (r.createdAt, r.jobId))
    (t.rows.filter (fun r => r.job.kind == kind && r.claimable now))).head?

def claimNext (kind : MemoryJobKind) (owner : String) (now leaseExpiresAt : Int) (t : MemoryJobs) :
    Except MemoryAssertionError (Option MemoryJob) × MemoryJobs :=
  if (trim owner).isEmpty ∨ leaseExpiresAt ≤ now then (.error (.invalid "invalid job lease"), t)
  else
    match firstClaimable kind now t with
    | none => (.ok none, t)
    | some r =>
      let t' := t.update r.jobId (claimChange owner now leaseExpiresAt)
      if t.changed r.jobId (claimChange owner now leaseExpiresAt) then (.ok ((t'.row r.jobId).map MemoryJobRow.job), t')
      else (.ok none, t)

def complete (jobId owner : String) (now : Int) (t : MemoryJobs) : Bool × MemoryJobs :=
  (t.changed jobId (completeChange owner now), t.update jobId (completeChange owner now))

def retry (jobId owner error : String) (nextAttemptAt : Int) (t : MemoryJobs) : Bool × MemoryJobs :=
  (t.changed jobId (retryChange owner error nextAttemptAt), t.update jobId (retryChange owner error nextAttemptAt))

/-- `redrive_failed`, without its row of the job redrive journal. -/
def redriveFailed (jobId actor reason : String) (now : Int) (t : MemoryJobs) :
    Except MemoryAssertionError Unit × MemoryJobs :=
  match validateRedriveRequest actor reason with
  | .error e => (.error (.db e), t)
  | .ok _ =>
    if t.changed jobId (redriveChange now) then (.ok (), t.update jobId (redriveChange now))
    else (.error (.db noRows), t)

theorem claimNext_cases (kind : MemoryJobKind) (owner : String) (now leaseExpiresAt : Int) (t : MemoryJobs) :
    ((∀ j, (claimNext kind owner now leaseExpiresAt t).1 ≠ .ok (some j)) ∧
        (claimNext kind owner now leaseExpiresAt t).2 = t) ∨
      ∃ r, firstClaimable kind now t = some r ∧ t.row r.jobId = some r ∧ r.job.kind = kind ∧ r.claimable now = true ∧
        now < leaseExpiresAt ∧ claimNext kind owner now leaseExpiresAt t =
          (.ok (some (r.claim owner leaseExpiresAt).job), t.update r.jobId (claimChange owner now leaseExpiresAt)) := by
  unfold claimNext
  split
  · exact .inl ⟨by simp, rfl⟩
  · next hlease =>
    rw [not_or, Int.not_le] at hlease
    cases hfirst : firstClaimable kind now t with
    | none => exact .inl ⟨by simp, rfl⟩
    | some r =>
      have hmem := List.mem_of_mem_head? hfirst
      rw [mem_orderBy, List.mem_filter, Bool.and_eq_true, beq_iff_eq] at hmem
      have hrow : t.row r.jobId = some r := Keyed.row_iff.2 ⟨hmem.1, rfl⟩
      have hchanged : t.changed r.jobId (claimChange owner now leaseExpiresAt) = true :=
        Keyed.changed_iff.2 ⟨r, hrow, hmem.2.2⟩
      refine .inr ⟨r, rfl, hrow, hmem.2.1, hmem.2.2, hlease.2, ?_⟩
      simp only [hchanged, if_true]
      rw [Keyed.row_update_of_changed hrow (c := claimChange owner now leaseExpiresAt) hmem.2.2]
      rfl

theorem insertAndSelect_cases (stored : String → Int → Bool) (job : NewMemoryJob) (jobId : String)
    (authority : Option (String × String)) (t : MemoryJobs) :
    (insertAndSelect stored job jobId authority t).2 = t ∨
      t.row jobId = none ∧ 0 < job.maxAttempts ∧ ∃ h : job.Checked,
        (insertAndSelect stored job jobId authority t).2 =
          t.insertOrIgnore (job.row jobId authority) (h.ok jobId authority) := by
  cases hinsert : insertJob stored job jobId authority t with
  | error e => exact .inl (by simp [insertAndSelect, hinsert])
  | ok t' =>
    have hleft : (insertAndSelect stored job jobId authority t).2 = t' := by
      rw [insertAndSelect, hinsert]
      dsimp only
      split <;> rfl
    rw [hleft]
    unfold insertJob at hinsert
    split at hinsert
    · cases hinsert
    · split at hinsert
      · exact .inl (Except.ok.inj hinsert).symm
      · next hfresh =>
        split at hinsert
        · next hchecked =>
          split at hinsert
          · refine .inr ⟨byKey_eq_none.2 fun hmem => hfresh ?_, hchecked.attempts, hchecked,
              (Except.ok.inj hinsert).symm⟩
            obtain ⟨r, hr, hkey⟩ := List.mem_map.1 hmem
            exact List.any_eq_true.2 ⟨r, hr, by simp [hkey]⟩
          · cases hinsert
        · exact .inl (Except.ok.inj hinsert).symm

end MemoryJobStore

end Execlaw
