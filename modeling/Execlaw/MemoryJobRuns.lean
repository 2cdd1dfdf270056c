import Execlaw.MemoryJobs
import Mathlib.Data.Set.Finite.Lattice
/-!
# MemoryJobRuns — no extraction job is lost

The jobs over any calls of any workers.  What holds of every run: a claim takes no running lease, a worker whose lease
another took over reports in vain, attempts stay within their bound and a completed job is final.  That a job stays
reachable asks more: a worker that takes the last attempt of a job and never reports leaves it running for ever.
-/
namespace Execlaw

open Table

inductive MemoryJobCall
  | enqueue (stored : String → Int → Bool) (jobId : String) (job : NewMemoryJob)
  | enqueueExtraction (stored : String → Int → Bool) (jobId : String) (job : NewMemoryJob)
      (authorityScope authorityTrustClass : String)
  | claimNext (kind : MemoryJobKind) (owner : String) (now leaseExpiresAt : Int)
  | complete (jobId owner : String) (now : Int)
  | retry (jobId owner error : String) (nextAttemptAt : Int)
  | redriveFailed (jobId actor reason : String) (now : Int)

namespace MemoryJobs

open MemoryJobStore

/-- **One call**; its answer is the job it takes. -/
def exec (t : MemoryJobs) : MemoryJobCall → Option MemoryJob × MemoryJobs
  | .enqueue stored jobId job => (none, (MemoryJobStore.enqueue stored jobId job t).2)
  | .enqueueExtraction stored jobId job scope trust =>
    (none, (MemoryJobStore.enqueueExtraction stored jobId job scope trust t).2)
  | .claimNext kind owner now leaseExpiresAt =>
    (match (MemoryJobStore.claimNext kind owner now leaseExpiresAt t).1 with
      | .ok taken => taken
      | .error _ => none, (MemoryJobStore.claimNext kind owner now leaseExpiresAt t).2)
  | .complete jobId owner now => (none, (MemoryJobStore.complete jobId owner now t).2)
  | .retry jobId owner error nextAttemptAt => (none, (MemoryJobStore.retry jobId owner error nextAttemptAt t).2)
  | .redriveFailed jobId actor reason now => (none, (MemoryJobStore.redriveFailed jobId actor reason now t).2)

def run (calls : List MemoryJobCall) : MemoryJobs := Calls.after exec .empty calls

def Takes (t : MemoryJobs) (worker jobId : String) (job : MemoryJob) (c : MemoryJobCall) : Prop :=
  (∃ kind now leaseExpiresAt, c = .claimNext kind worker now leaseExpiresAt) ∧ (exec t c).1 = some job ∧
    job.jobId = jobId

def Reports (worker jobId : String) : MemoryJobCall → Prop
  | .complete job owner _ => job = jobId ∧ owner = worker
  | .retry job owner _ _ => job = jobId ∧ owner = worker
  | _ => False

def Leased (t : MemoryJobs) (worker jobId : String) (now : Int) : Prop :=
  ∃ r e, t.row jobId = some r ∧ r.leaseOwner = some worker ∧ r.leaseExpiresAt = some e ∧ now < e

def ClaimableLater (t : MemoryJobs) (jobId : String) (now : Int) : Prop :=
  ∃ at_, now ≤ at_ ∧ ∃ kind, ∀ owner leaseExpiresAt, (trim owner).isEmpty = false → at_ < leaseExpiresAt →
    ∃ n job, job.jobId = jobId ∧
      (exec (Calls.after exec t (List.replicate n (.claimNext kind owner at_ leaseExpiresAt)))
        (.claimNext kind owner at_ leaseExpiresAt)).1 = some job

def Redrivable (t : MemoryJobs) (jobId : String) : Prop :=
  ∀ actor reason now, (∃ p, validateRedriveRequest actor reason = .ok p) →
    (MemoryJobStore.redriveFailed jobId actor reason now t).1 = .ok ()

/-- **What should hold of every run.** -/
structure NeverLost (calls : List MemoryJobCall) : Prop where
  single : ∀ jobId now worker other, Leased (run calls) worker jobId now → Leased (run calls) other jobId now →
    worker = other
  exclusive : ∀ pre kind owner now leaseExpiresAt post, calls = pre ++ .claimNext kind owner now leaseExpiresAt :: post →
    ∀ job, (exec (run pre) (.claimNext kind owner now leaseExpiresAt)).1 = some job →
      ∀ worker, ¬ Leased (run pre) worker job.jobId now
  reclaimed : ∀ pre c mid d post, calls = pre ++ c :: (mid ++ d :: post) → ∀ jobId worker other, worker ≠ other →
    (∃ job, Takes (run pre) other jobId job c) →
    (∀ front e rest, mid = front ++ e :: rest → ¬ ∃ job, Takes (run (pre ++ c :: front)) worker jobId job e) →
    Reports worker jobId d → run (pre ++ c :: (mid ++ [d])) = run (pre ++ c :: mid)
  bounded : ∀ r ∈ (run calls).rows, r.job.attempt ≤ r.job.maxAttempts
  final : ∀ pre post, calls = pre ++ post → ∀ jobId r, (run pre).row jobId = some r → r.status = .completed →
    (run calls).row jobId = some r
  reachable : ∀ now, (∀ worker jobId, ¬ Leased (run calls) worker jobId now) → ∀ r ∈ (run calls).rows,
    r.status = .completed ∨ ClaimableLater (run calls) r.jobId now ∨
      r.status = .failed ∧ Redrivable (run calls) r.jobId

/-- **Every last attempt is reported**: the worker of a claim that leaves no attempt completes the job or hands it
back. -/
def LastReported (calls : List MemoryJobCall) : Prop :=
  ∀ pre c post, calls = pre ++ c :: post → ∀ worker jobId job, Takes (run pre) worker jobId job c →
    job.attempt = job.maxAttempts → ∃ d ∈ post, Reports worker jobId d

/-! ## What a call makes of a row -/

inductive Moved (t : MemoryJobs) (jobId : String) : MemoryJobCall → Option MemoryJobRow → Option MemoryJobRow → Prop
  | stays (c) (r) : Moved t jobId c r r
  | enqueued (c) (r) (hstatus : r.status = .pending) (hattempt : r.job.attempt = 0) (hmax : 0 < r.job.maxAttempts) :
    Moved t jobId c none (some r)
  | taken (kind owner now leaseExpiresAt) (r) (hclaimable : r.claimable now = true)
      (htakes : Takes t owner jobId (r.claim owner leaseExpiresAt).job (.claimNext kind owner now leaseExpiresAt)) :
    Moved t jobId (.claimNext kind owner now leaseExpiresAt) (some r) (some (r.claim owner leaseExpiresAt))
  | completed (owner now) (r) (hheld : r.heldBy owner = true) :
    Moved t jobId (.complete jobId owner now) (some r) (some (r.complete now))
  | retried (owner error nextAttemptAt) (r) (hheld : r.heldBy owner = true) :
    Moved t jobId (.retry jobId owner error nextAttemptAt) (some r) (some (r.retry error nextAttemptAt))
  | redriven (actor reason now) (r) (hfailed : r.status = .failed) :
    Moved t jobId (.redriveFailed jobId actor reason now) (some r) (some (r.redrive now))

theorem moved_insert (stored : String → Int → Bool) (job : NewMemoryJob) (fresh : String)
    (authority : Option (String × String)) (t : MemoryJobs) (c : MemoryJobCall) (jobId : String) :
    Moved t jobId c (t.row jobId) ((insertAndSelect stored job fresh authority t).2.row jobId) := by
  rcases insertAndSelect_cases stored job fresh authority t with h | ⟨hnone, hmax, hchecked, h⟩
  · rw [h]
    exact .stays c _
  · rw [h, Keyed.row_insertOrIgnore]
    by_cases hkey : (job.row fresh authority).jobId = jobId
    · have hfresh : t.row jobId = none := by rw [← hkey]; exact hnone
      rw [hfresh, if_pos hkey]
      exact .enqueued c _ rfl rfl hmax
    · rw [if_neg hkey, Option.or_none]
      exact .stays c _

variable {t : MemoryJobs}

theorem moved_update {jobId key : String} {change : JobChange} {c : MemoryJobCall}
    (h : ∀ r, t.row jobId = some r → jobId = key → change.takes r = true → Moved t jobId c (some r)
    (some (change.set r))) : Moved t jobId c (t.row jobId) ((t.update key change).row jobId) := by
  cases hrow : t.row jobId with
  | none =>
    rw [Keyed.row_update_eq_none hrow]
    exact .stays c _
  | some r =>
    rcases Keyed.row_update_cases (k := key) (c := change) hrow with hsame | ⟨hkey, htakes, hset⟩
    · rw [hsame]
      exact .stays c _
    · rw [hset]
      exact h r hrow hkey htakes

theorem moved (t : MemoryJobs) (c : MemoryJobCall) (jobId : String) :
    Moved t jobId c (t.row jobId) ((exec t c).2.row jobId) := by
  cases c with
  | enqueue stored fresh job =>
    simp only [exec, MemoryJobStore.enqueue]
    split
    · exact .stays _ _
    · exact moved_insert stored job fresh none t _ jobId
  | enqueueExtraction stored fresh job scope trust =>
    simp only [exec, MemoryJobStore.enqueueExtraction]
    split
    · exact .stays _ _
    · exact moved_insert stored job fresh _ t _ jobId
  | claimNext kind owner now leaseExpiresAt =>
    rcases claimNext_cases kind owner now leaseExpiresAt t with ⟨-, h⟩ | ⟨r, -, hrow, -, hclaimable, -, h⟩
    · simp only [exec, h]
      exact .stays _ _
    · have hexec : exec t (.claimNext kind owner now leaseExpiresAt) =
          (some (r.claim owner leaseExpiresAt).job, t.update r.jobId (claimChange owner now leaseExpiresAt)) := by
        simp [exec, h]
      rw [hexec]
      refine moved_update fun q hq hkey htakes => ?_
      subst hkey
      cases hrow.symm.trans hq
      exact .taken kind owner now leaseExpiresAt r hclaimable ⟨⟨kind, now, leaseExpiresAt, rfl⟩, by rw [hexec], rfl⟩
  | complete key owner now =>
    refine moved_update fun r _ hkey htakes => ?_
    subst hkey
    exact .completed owner now r htakes
  | retry key owner error nextAttemptAt =>
    refine moved_update fun r _ hkey htakes => ?_
    subst hkey
    exact .retried owner error nextAttemptAt r htakes
  | redriveFailed key actor reason now =>
    simp only [exec, MemoryJobStore.redriveFailed]
    split
    · exact .stays _ _
    · split
      · refine moved_update fun r _ hkey htakes => ?_
        subst hkey
        exact .redriven actor reason now r (by simpa [redriveChange] using htakes)
      · exact .stays _ _

variable {worker jobId : String}

theorem Takes.row {job : MemoryJob} {c : MemoryJobCall} (h : Takes t worker jobId job c) :
    ∃ kind now leaseExpiresAt r, c = .claimNext kind worker now leaseExpiresAt ∧ t.row jobId = some r ∧
      r.claimable now = true ∧ job = (r.claim worker leaseExpiresAt).job ∧
      (exec t c).2.row jobId = some (r.claim worker leaseExpiresAt) := by
  obtain ⟨⟨kind, now, leaseExpiresAt, rfl⟩, hjob, rfl⟩ := h
  rcases claimNext_cases kind worker now leaseExpiresAt t with ⟨hnone, -⟩ | ⟨r, -, hrow, -, hclaimable, -, h⟩
  · simp only [exec] at hjob
    split at hjob
    · next taken hok => exact (hnone job (by rw [hok, hjob])).elim
    · cases hjob
  · simp only [exec, h, Option.some.injEq] at hjob
    subst hjob
    refine ⟨kind, now, leaseExpiresAt, r, rfl, hrow, hclaimable, rfl, ?_⟩
    simp only [exec, h]
    exact Keyed.row_update_of_changed hrow (c := claimChange worker now leaseExpiresAt) hclaimable

/-! ## What every call keeps -/

section Kept

variable {t : MemoryJobs} {c : MemoryJobCall} {jobId worker : String} {r : MemoryJobRow}

def Bounded (t : MemoryJobs) : Prop :=
  ∀ jobId r, t.row jobId = some r →
    r.job.attempt ≤ r.job.maxAttempts ∧ (r.status = .pending → r.job.attempt < r.job.maxAttempts)

theorem Bounded.kept (h : Bounded t) (c : MemoryJobCall) : Bounded (exec t c).2 := by
  intro jobId q hq
  have hmoved := moved t c jobId
  rw [hq] at hmoved
  cases hbefore : t.row jobId with
  | none =>
    rw [hbefore] at hmoved
    cases hmoved with
    | enqueued _ _ hstatus hattempt hmax => exact ⟨by omega, fun _ => by omega⟩
  | some r =>
    obtain ⟨hle, hpending⟩ := h jobId r hbefore
    rw [hbefore] at hmoved
    cases hmoved with
    | stays => exact ⟨hle, hpending⟩
    | taken kind owner now leaseExpiresAt _ hclaimable _ =>
      have hlt : r.job.attempt < r.job.maxAttempts := by
        simp only [MemoryJobRow.claimable, Bool.and_eq_true, decide_eq_true_eq] at hclaimable
        exact hclaimable.1
      exact ⟨by simp only [MemoryJobRow.claim]; omega, nofun⟩
    | completed owner now => exact ⟨hle, nofun⟩
    | retried owner error nextAttemptAt =>
      refine ⟨hle, fun hstatus => ?_⟩
      simp only [MemoryJobRow.retry] at hstatus ⊢
      split at hstatus
      · cases hstatus
      · omega
    | redriven actor reason now _ hfailed =>
      have hok := (Keyed.ok_of_row hbefore).attempts
      exact ⟨by simp only [MemoryJobRow.redrive]; omega, fun _ => by simp only [MemoryJobRow.redrive]; omega⟩

theorem completed_kept (hrow : t.row jobId = some r) (hcompleted : r.status = .completed) (c : MemoryJobCall) :
    (exec t c).2.row jobId = some r := by
  have hmoved := moved t c jobId
  rw [hrow] at hmoved
  generalize (exec t c).2.row jobId = after at hmoved
  cases hmoved with
  | stays => rfl
  | taken kind owner now leaseExpiresAt _ hclaimable _ => simp [MemoryJobRow.claimable, hcompleted] at hclaimable
  | completed owner now _ hheld => simp [MemoryJobRow.heldBy, hcompleted] at hheld
  | retried owner error nextAttemptAt _ hheld => simp [MemoryJobRow.heldBy, hcompleted] at hheld
  | redriven actor reason now _ hfailed => rw [hcompleted] at hfailed; cases hfailed

def Lost (worker jobId : String) (t : MemoryJobs) : Prop := (t.row jobId).all (fun r => !r.heldBy worker) = true

theorem Lost.kept (h : Lost worker jobId t) (hc : ¬ ∃ job, Takes t worker jobId job c) :
    Lost worker jobId (exec t c).2 := by
  have hmoved := moved t c jobId
  unfold Lost at h ⊢
  generalize (exec t c).2.row jobId = after at hmoved ⊢
  generalize t.row jobId = before at hmoved h
  cases hmoved with
  | stays => exact h
  | enqueued _ r hstatus => simp [MemoryJobRow.heldBy, hstatus]
  | taken kind owner now leaseExpiresAt r _ htakes =>
    by_cases howner : owner = worker
    · subst howner
      exact (hc ⟨_, htakes⟩).elim
    · simp [MemoryJobRow.heldBy, MemoryJobRow.claim, howner]
  | completed owner now r => simp [MemoryJobRow.heldBy, MemoryJobRow.complete]
  | retried owner error nextAttemptAt r => simp [MemoryJobRow.heldBy, MemoryJobRow.retry]
  | redriven actor reason now r => simp [MemoryJobRow.heldBy, MemoryJobRow.redrive]

variable {job : MemoryJob}

theorem Lost.of_takes {other : String} (hne : worker ≠ other) (h : Takes t other jobId job c) :
    Lost worker jobId (exec t c).2 := by
  obtain ⟨kind, now, leaseExpiresAt, r, -, -, -, -, hrow⟩ := h.row
  simp [Lost, hrow, MemoryJobRow.heldBy, MemoryJobRow.claim, hne.symm]

theorem Lost.report (h : Lost worker jobId t) (hc : Reports worker jobId c) : (exec t c).2 = t := by
  have hunchanged {change : JobChange} (htakes : change.takes = MemoryJobRow.heldBy worker) :
      t.changed jobId change = false := by
    unfold Lost at h
    cases hrow : t.row jobId with
    | none => simp [Keyed.changed, hrow]
    | some r =>
      rw [hrow] at h
      simpa [Keyed.changed, hrow, htakes] using h
  cases c with
  | complete key owner now | retry key owner error nextAttemptAt =>
    obtain ⟨rfl, rfl⟩ := hc
    exact Keyed.update_eq_self (hunchanged rfl)
  | _ => exact hc.elim

/-! ## Jobs that are out of reach -/

def Stuck (worker jobId : String) (t : MemoryJobs) : Prop :=
  ∃ r, t.row jobId = some r ∧ r.heldBy worker = true ∧ r.job.maxAttempts ≤ r.job.attempt

theorem Stuck.unclaimable (h : Stuck worker jobId t) {other : String} : ¬ Takes t other jobId job c := by
  intro htakes
  obtain ⟨r, hrow, -, hmax⟩ := h
  obtain ⟨_, now, _, q, -, hq, hclaimable, -⟩ := htakes.row
  obtain rfl := Option.mem_unique hrow hq
  simp only [MemoryJobRow.claimable, Bool.and_eq_true, decide_eq_true_eq] at hclaimable
  omega

theorem Stuck.kept (h : Stuck worker jobId t) (hc : ¬ Reports worker jobId c) : Stuck worker jobId (exec t c).2 := by
  have hunclaimable {job : MemoryJob} {other : String} : ¬ Takes t other jobId job c := h.unclaimable
  obtain ⟨r, hrow, hheld, hmax⟩ := h
  have hrunning : r.status = .running ∧ r.leaseOwner = some worker := by simpa [MemoryJobRow.heldBy] using hheld
  have hmoved := moved t c jobId
  rw [hrow] at hmoved
  suffices (exec t c).2.row jobId = some r from ⟨r, this, hheld, hmax⟩
  generalize (exec t c).2.row jobId = after at hmoved
  cases hmoved with
  | stays => rfl
  | taken kind owner now leaseExpiresAt _ _ htakes => exact (hunclaimable htakes).elim
  | completed owner now _ howner | retried owner error nextAttemptAt _ howner =>
    have hsame : worker = owner := by simpa [MemoryJobRow.heldBy, hrunning] using howner
    exact (hc ⟨rfl, hsame.symm⟩).elim
  | redriven actor reason now _ hfailed => rw [hrunning.1] at hfailed; cases hfailed

theorem Stuck.later (h : Stuck worker jobId t) (calls : List MemoryJobCall)
    (hcalls : ∀ d ∈ calls, ¬ Reports worker jobId d) : Stuck worker jobId (Calls.after exec t calls) := by
  induction calls generalizing t with
  | nil => exact h
  | cons d calls ih =>
    obtain ⟨hd, hcalls⟩ := List.forall_mem_cons.1 hcalls
    exact ih (h.kept hd) hcalls

theorem Stuck.of_takes (h : Takes t worker jobId job c) (hlast : job.attempt = job.maxAttempts) :
    Stuck worker jobId (exec t c).2 := by
  obtain ⟨kind, now, leaseExpiresAt, r, -, -, -, rfl, hrow⟩ := h.row
  exact ⟨_, hrow, by simp [MemoryJobRow.heldBy, MemoryJobRow.claim], by omega⟩

theorem stuck_cases (hbounded : Bounded t) (h : Stuck worker jobId (exec t c).2) :
    Stuck worker jobId t ∧ ¬ Reports worker jobId c ∨
      ∃ job, Takes t worker jobId job c ∧ job.attempt = job.maxAttempts := by
  have hkept := hbounded.kept c
  obtain ⟨q, hq, hheld, hmax⟩ := h
  have hle := (hkept jobId q hq).1
  have hmoved := moved t c jobId
  rw [hq] at hmoved
  have hheld' : q.status = .running ∧ q.leaseOwner = some worker := by simpa [MemoryJobRow.heldBy] using hheld
  cases hbefore : t.row jobId with
  | none =>
    rw [hbefore] at hmoved
    cases hmoved with
    | enqueued _ _ hstatus => rw [hheld'.1] at hstatus; cases hstatus
  | some r =>
    rw [hbefore] at hmoved
    cases hmoved with
    | stays =>
      refine .inl ⟨⟨q, hbefore, hheld, hmax⟩, fun hreports => ?_⟩
      -- the worker holds the job, so its report would have ended the lease
      have hends (change : JobChange) (htakes : change.takes = MemoryJobRow.heldBy worker)
          (hexec : (exec t c).2 = t.update jobId change) : change.set q = q := by
        have hset := Keyed.row_update_of_changed hbefore (c := change) (by rw [htakes]; exact hheld)
        rw [hexec, hset] at hq
        exact Option.some.inj hq
      cases c with
      | complete key owner now =>
        obtain ⟨rfl, rfl⟩ := hreports
        have hset := hends (completeChange owner now) rfl rfl
        have howner := congrArg MemoryJobRow.leaseOwner hset
        simp [completeChange, MemoryJobRow.complete, hheld'.2] at howner
      | retry key owner error nextAttemptAt =>
        obtain ⟨rfl, rfl⟩ := hreports
        have hset := hends (retryChange owner error nextAttemptAt) rfl rfl
        have howner := congrArg MemoryJobRow.leaseOwner hset
        simp [retryChange, MemoryJobRow.retry, hheld'.2] at howner
      | _ => exact hreports
    | taken kind owner now leaseExpiresAt _ _ htakes =>
      have howner : owner = worker := by simpa [MemoryJobRow.claim] using hheld'.2
      subst howner
      exact .inr ⟨_, htakes, by omega⟩
    | completed owner now => simp [MemoryJobRow.complete] at hheld'
    | retried owner error nextAttemptAt => simp [MemoryJobRow.retry] at hheld'
    | redriven actor reason now => simp [MemoryJobRow.redrive] at hheld'

end Kept

/-! ## Claiming again and again -/

section Again

variable {kind : MemoryJobKind} {owner jobId : String} {at_ leaseExpiresAt : Int}

def open_ (kind : MemoryJobKind) (at_ : Int) (r : MemoryJobRow) : Bool := r.job.kind == kind && r.claimable at_

variable {t : MemoryJobs}

theorem claimNext_takes {r : MemoryJobRow} (howner : (trim owner).isEmpty = false) (hlease : at_ < leaseExpiresAt)
    (hrow : t.row jobId = some r) (hopen : open_ kind at_ r = true) :
    ∃ q, t.row q.jobId = some q ∧ open_ kind at_ q = true ∧
      exec t (.claimNext kind owner at_ leaseExpiresAt) =
        (some (q.claim owner leaseExpiresAt).job, t.update q.jobId (claimChange owner at_ leaseExpiresAt)) := by
  rcases claimNext_cases kind owner at_ leaseExpiresAt t with ⟨hnone, -⟩ | ⟨q, -, hq, hkind, hclaimable, -, h⟩
  · exfalso
    have hfirst : ∃ q, firstClaimable kind at_ t = some q := by
      refine Option.ne_none_iff_exists'.1 fun hnil => ?_
      rw [firstClaimable, List.head?_eq_none_iff] at hnil
      have hmem : r ∈ t.rows.filter (fun r => r.job.kind == kind && r.claimable at_) :=
        List.mem_filter.2 ⟨(Keyed.row_iff.1 hrow).1, hopen⟩
      rw [← mem_orderBy (fun r : MemoryJobRow => toLex (r.createdAt, r.jobId)), hnil] at hmem
      cases hmem
    obtain ⟨q, hq⟩ := hfirst
    have hmem := List.mem_of_mem_head? hq
    rw [mem_orderBy, List.mem_filter, Bool.and_eq_true, beq_iff_eq] at hmem
    have hqrow : t.row q.jobId = some q := Keyed.row_iff.2 ⟨hmem.1, rfl⟩
    have hchanged : t.changed q.jobId (claimChange owner at_ leaseExpiresAt) = true :=
      Keyed.changed_iff.2 ⟨q, hqrow, hmem.2.2⟩
    have hlive : ¬ ((trim owner).isEmpty = true ∨ leaseExpiresAt ≤ at_) := by simp [howner, hlease]
    refine hnone (q.claim owner leaseExpiresAt).job ?_
    rw [MemoryJobStore.claimNext, if_neg hlive]
    simp only [hq, hchanged, if_true]
    rw [Keyed.row_update_of_changed hqrow (c := claimChange owner at_ leaseExpiresAt) hmem.2.2]
    rfl
  · exact ⟨q, hq, by simp [open_, hkind, hclaimable], by simp only [exec, h]⟩

theorem taken_in_turn (howner : (trim owner).isEmpty = false) (hlease : at_ < leaseExpiresAt) (m : Nat) :
    ∀ (t : MemoryJobs) (r : MemoryJobRow), t.row jobId = some r → open_ kind at_ r = true →
      t.total (fun r => (open_ kind at_ r).toNat) ≤ m →
        ∃ n job, job.jobId = jobId ∧
          (exec (Calls.after exec t (List.replicate n (.claimNext kind owner at_ leaseExpiresAt)))
            (.claimNext kind owner at_ leaseExpiresAt)).1 = some job := by
  induction m with
  | zero =>
    intro t r hrow hopen htotal
    have hone := Keyed.le_total hrow (fun r => (open_ kind at_ r).toNat)
    simp only [hopen, Bool.toNat_true] at hone
    omega
  | succ m ih =>
    intro t r hrow hopen htotal
    obtain ⟨q, hq, hqopen, hexec⟩ := claimNext_takes howner hlease hrow hopen
    by_cases hkey : q.jobId = jobId
    · exact ⟨0, (q.claim owner leaseExpiresAt).job, hkey, by rw [List.replicate_zero, Calls.after_nil, hexec]⟩
    · have htakes : (claimChange owner at_ leaseExpiresAt).takes q = true := by
        simp only [open_, Bool.and_eq_true] at hqopen
        exact hqopen.2
      have hclosed : open_ kind at_ ((claimChange owner at_ leaseExpiresAt).apply q) = false := by
        rw [Change.apply, if_pos htakes]
        simp [open_, claimChange, MemoryJobRow.claimable, MemoryJobRow.claim, Int.not_le.2 hlease]
      have hless := Keyed.total_update (c := claimChange owner at_ leaseExpiresAt) hq
        (fun r => (open_ kind at_ r).toNat)
      simp only [hqopen, hclosed, Bool.toNat_true, Bool.toNat_false] at hless
      have hrow' := (Keyed.row_update_of_ne t (Ne.symm hkey) (claimChange owner at_ leaseExpiresAt)).trans hrow
      obtain ⟨n, job, hjob, htaken⟩ := ih _ r hrow' hopen (by omega)
      refine ⟨n + 1, job, hjob, ?_⟩
      rw [List.replicate_succ, Calls.after_cons, hexec]
      exact htaken

theorem ClaimableLater.of_claimable {r : MemoryJobRow} {now : Int} (hrow : t.row jobId = some r) (hle : now ≤ at_)
    (h : r.claimable at_ = true) : ClaimableLater t jobId now :=
  ⟨at_, hle, r.job.kind, fun _ _ howner hlease =>
    taken_in_turn howner hlease _ t r hrow (by simp [open_, h]) (Nat.le_refl _)⟩

theorem Stuck.not_claimableLater {worker : String} {now : Int} (h : Stuck worker jobId t) :
    ¬ ClaimableLater t jobId now := by
  rintro ⟨at_, -, kind, hlater⟩
  obtain ⟨n, job, hjob, htaken⟩ := hlater "w" (at_ + 1) (by decide) (by omega)
  have hstuck := h.later (List.replicate n (.claimNext kind "w" at_ (at_ + 1))) (fun d hd hreports => by
    rw [List.eq_of_mem_replicate hd] at hreports
    exact hreports)
  exact hstuck.unclaimable ⟨⟨kind, at_, at_ + 1, rfl⟩, htaken, hjob⟩

end Again

theorem bounded_run (calls : List MemoryJobCall) : Bounded (run calls) :=
  Calls.after_invariant (fun _ c h => h.kept c) (by rintro jobId r ⟨⟩) calls

theorem run_append (calls later : List MemoryJobCall) : run (calls ++ later) = Calls.after exec (run calls) later :=
  Calls.after_append exec .empty calls later

theorem run_cons (pre : List MemoryJobCall) (c : MemoryJobCall) (later : List MemoryJobCall) :
    run (pre ++ c :: later) = Calls.after exec (exec (run pre) c).2 later :=
  run_append pre (c :: later)

variable {calls : List MemoryJobCall}

theorem stuck_run (h : Stuck worker jobId (run calls)) :
    ∃ pre c post job, calls = pre ++ c :: post ∧ Takes (run pre) worker jobId job c ∧
      job.attempt = job.maxAttempts ∧ ∀ d ∈ post, ¬ Reports worker jobId d := by
  induction calls using List.reverseRecOn with
  | nil =>
    obtain ⟨r, hrow, -⟩ := h
    cases hrow
  | append_singleton calls c ih =>
    have hrun : run (calls ++ [c]) = (exec (run calls) c).2 := Calls.after_snoc exec .empty calls c
    rw [hrun] at h
    rcases stuck_cases (bounded_run calls) h with ⟨hbefore, hquiet⟩ | ⟨job, htakes, hlast⟩
    · obtain ⟨pre, d, post, job, rfl, htakes, hlast, hpost⟩ := ih hbefore
      refine ⟨pre, d, post ++ [c], job, by simp, htakes, hlast, ?_⟩
      intro e he
      rcases List.mem_append.1 he with he | he
      · exact hpost e he
      · rw [List.mem_singleton.1 he]
        exact hquiet
    · exact ⟨calls, c, [], job, rfl, htakes, hlast, by simp⟩

theorem Bounded.claimable_or_stuck (h : Bounded t) {now : Int} (hleases : ∀ worker jobId, ¬ Leased t worker jobId now)
    {r : MemoryJobRow} (hr : r ∈ t.rows) :
    r.status = .completed ∨ ClaimableLater t r.jobId now ∨ r.status = .failed ∧ Redrivable t r.jobId ∨
      ∃ worker, Stuck worker r.jobId t := by
  have hrow : t.row r.jobId = some r := Keyed.row_iff.2 ⟨hr, rfl⟩
  have hok := t.checked r hr
  cases hstatus : r.status with
  | completed => exact .inl rfl
  | pending =>
    refine .inr (.inl (.of_claimable hrow (Int.le_max_left now r.nextAttemptAt) ?_))
    simp [MemoryJobRow.claimable, hstatus, (h r.jobId r hrow).2 hstatus]
  | failed =>
    refine .inr (.inr (.inl ⟨rfl, ?_⟩))
    rintro actor reason at_ ⟨p, hp⟩
    have hchanged : t.changed r.jobId (redriveChange at_) = true :=
      Keyed.changed_iff.2 ⟨r, hrow, by simp [redriveChange, hstatus]⟩
    simp [MemoryJobStore.redriveFailed, hp, hchanged]
  | running =>
    obtain ⟨worker, howner⟩ := Option.isSome_iff_exists.1 (hok.leased.1 hstatus)
    have hexpires : r.leaseExpiresAt.isSome = true := by rw [← hok.lease, howner]; rfl
    obtain ⟨e, he⟩ := Option.isSome_iff_exists.1 hexpires
    by_cases hlast : r.job.attempt < r.job.maxAttempts
    · have hover : e ≤ now := Int.not_lt.1 fun hlt => hleases worker r.jobId ⟨r, e, hrow, howner, he, hlt⟩
      refine .inr (.inl (.of_claimable hrow (Int.le_refl now) ?_))
      simp [MemoryJobRow.claimable, hstatus, hlast, he, hover]
    · exact .inr (.inr (.inr ⟨worker, r, hrow, by simp [MemoryJobRow.heldBy, hstatus, howner], Int.not_lt.1 hlast⟩))

theorem exists_unleased (t : MemoryJobs) : ∃ now, ∀ worker jobId, ¬ Leased t worker jobId now := by
  obtain ⟨now, hnow⟩ := (List.finite_toSet (t.rows.filterMap MemoryJobRow.leaseExpiresAt)).bddAbove
  refine ⟨now, ?_⟩
  rintro worker jobId ⟨r, e, hrow, -, he, hlt⟩
  have hle : e ≤ now := hnow (List.mem_filterMap.2 ⟨r, (Keyed.row_iff.1 hrow).1, he⟩)
  omega

theorem Takes.unleased {kind : MemoryJobKind} {owner worker jobId : String} {now leaseExpiresAt : Int} {job : MemoryJob}
    (h : Takes t owner jobId job (.claimNext kind owner now leaseExpiresAt)) : ¬ Leased t worker jobId now := by
  rintro ⟨q, e, hq, howner, he, hlt⟩
  obtain ⟨_, _, _, r, hcall, hrow, hclaimable, -⟩ := h.row
  obtain ⟨rfl, -, rfl, rfl⟩ := MemoryJobCall.claimNext.inj hcall
  obtain rfl := Option.mem_unique hrow hq
  have hrunning : r.status = .running := (Keyed.ok_of_row hrow).leased.2 (by rw [howner]; rfl)
  simp [MemoryJobRow.claimable, hrunning, he] at hclaimable
  omega

theorem NeverLost.lastReported (h : NeverLost calls) : LastReported calls := by
  intro pre c post hcalls worker jobId job htakes hlast
  by_contra hnone
  have hquiet : ∀ d ∈ post, ¬ Reports worker jobId d := fun d hd hreports => hnone ⟨d, hd, hreports⟩
  have hstuck : Stuck worker jobId (run calls) := by
    rw [hcalls, run_cons]
    exact (Stuck.of_takes htakes hlast).later post hquiet
  obtain ⟨now, hnow⟩ := exists_unleased (run calls)
  obtain ⟨r, hrow, hheld, -⟩ := id hstuck
  obtain ⟨hr, rfl⟩ := Keyed.row_iff.1 hrow
  have hrunning : r.status = .running := by
    simp only [MemoryJobRow.heldBy, Bool.and_eq_true, beq_iff_eq] at hheld
    exact hheld.1
  rcases h.reachable now hnow r hr with hcompleted | hlater | ⟨hfailed, -⟩
  · rw [hrunning] at hcompleted
    cases hcompleted
  · exact hstuck.not_claimableLater hlater
  · rw [hrunning] at hfailed
    cases hfailed

/-- **No job is lost exactly if every last attempt is reported.** -/
theorem neverLost_iff (calls : List MemoryJobCall) : NeverLost calls ↔ LastReported calls := by
  constructor
  · exact NeverLost.lastReported
  · intro h
    refine { single := ?_, exclusive := ?_, reclaimed := ?_, bounded := ?_, final := ?_, reachable := ?_ }
    · rintro jobId now worker other ⟨r, -, hrow, howner, -⟩ ⟨q, -, hq, hother, -⟩
      cases hrow.symm.trans hq
      exact Option.mem_unique howner hother
    · intro pre kind owner now leaseExpiresAt post _ job hjob worker
      exact Takes.unleased ⟨⟨kind, now, leaseExpiresAt, rfl⟩, hjob, rfl⟩
    · rintro pre c mid d post - jobId worker other hne ⟨job, htakes⟩ hmid hreports
      -- from the other worker's claim on, the job does not run for this one
      have hguarded : Calls.Guarded exec (fun t e => ¬ ∃ job, Takes t worker jobId job e) (exec (run pre) c).2 mid := by
        intro front e rest hsplit
        rw [← run_cons]
        exact hmid front e rest hsplit
      have hlost : Lost worker jobId (run (pre ++ c :: mid)) := by
        rw [run_cons]
        exact hguarded.invariant (fun _ _ hlost he => hlost.kept he) (.of_takes hne htakes)
      have hsnoc : pre ++ c :: (mid ++ [d]) = (pre ++ c :: mid) ++ [d] := by simp
      rw [hsnoc, run_append]
      exact hlost.report hreports
    · intro r hr
      exact (bounded_run calls r.jobId r (Keyed.row_iff.2 ⟨hr, rfl⟩)).1
    · rintro pre post rfl jobId r hrow hcompleted
      rw [run_append]
      exact Calls.after_invariant (I := fun t : MemoryJobs => t.row jobId = some r)
        (fun _ c hrow => completed_kept hrow hcompleted c) hrow post
    · intro now hleases r hr
      rcases (bounded_run calls).claimable_or_stuck hleases hr with h' | h' | h' | ⟨worker, hstuck⟩
      · exact .inl h'
      · exact .inr (.inl h')
      · exact .inr (.inr h')
      · obtain ⟨pre, c, post, job, hcalls, htakes, hlast, hquiet⟩ := stuck_run hstuck
        obtain ⟨d, hd, hreports⟩ := h pre c post hcalls worker r.jobId job htakes hlast
        exact (hquiet d hd hreports).elim

def abandoned : List MemoryJobCall :=
  [.enqueueExtraction (fun _ _ => true) "j" ⟨.memoryExtract, "c", 1, 1, "r", "p", "m", 1, 0⟩ "scope" "Controller",
    .claimNext .memoryExtract "w" 0 60]

/-- **The job is lost**: no claim takes it, and it has not failed. -/
theorem abandoned_lost : ¬ NeverLost abandoned := by
  intro h
  obtain ⟨d, hd, -⟩ := h.lastReported (abandoned.take 1) (.claimNext .memoryExtract "w" 0 60) [] rfl "w" "j"
    ⟨"j", .memoryExtract, "c", 1, 1, "r", "p", "m", some "scope", some "Controller", 1, 1⟩
    ⟨⟨_, _, _, rfl⟩, by decide, rfl⟩ rfl
  cases hd

end MemoryJobs

end Execlaw
