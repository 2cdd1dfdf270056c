import Execlaw.WorkspaceApply
import Mathlib.Data.List.Induction
/-!
# WorkspaceApplyRuns — workers that apply diffs to one workspace (`execute_apply_files`)

A worker claims a receipt, reads its files and then writes the outcome of one file after the other.  Its lease of the
receipt is what its writes are checked against; the lock of the workspace can be another worker's by then.
-/
namespace Execlaw

open Table WorkspaceStore

theorem update_some_cases {α β : Type} [DecidableEq α] {f : α → Option β} {a x : α} {b y : β}
    (h : Function.update f a (some b) x = some y) : x = a ∧ b = y ∨ x ≠ a ∧ f x = some y := by
  by_cases hx : x = a
  · subst hx
    rw [Function.update_self] at h
    exact .inl ⟨rfl, Option.some.inj h⟩
  · rw [Function.update_of_ne hx] at h
    exact .inr ⟨hx, h⟩

/-- What `apply_workspace_file` makes of a file. -/
inductive FileOutcome
  | done
  | conflict (detail : String)
  | failure (detail : String)

/-- Where a worker stands in `execute_apply_files`. -/
inductive ApplyStage
  | listing
  | files (rest : List WorkspaceApplyFile)
  | ending (status : ApplyStatus)
  | ended

structure ApplyWorker where
  applyId : String
  stage : ApplyStage

structure ApplySystem where
  tables : ApplyTables
  workers : String → Option ApplyWorker

def FileOutcome.fits : FileOutcome → Bool
  | .done => true
  | .conflict detail | .failure detail => decide (detail.utf8ByteSize ≤ 2048)

def ApplyStage.writes (outcome : FileOutcome) : ApplyStage → Bool
  | .files [] => true
  | .files (f :: _) =>
    match f.status with
    | .applied => false
    | .conflict => true
    | .pending | .failed => outcome.fits
  | .ending status => status != .applying
  | .listing | .ended => false

inductive ApplyCall
  | begin (referenced : Bool) (applyId : String) (args : BeginApply)
  | claim (worker applyId : String) (now leaseSeconds : Int)
  | turn (worker : String) (outcome : FileOutcome) (now : Int)

namespace ApplySystem

def start : ApplySystem := ⟨⟨.empty, .empty, .empty⟩, fun _ => none⟩

def answered (res : Except WorkspaceStoreError Unit × ApplyTables) (next : ApplyStage) :
    Bool × ApplyTables × ApplyStage :=
  match res.1 with
  | .ok () => (true, res.2, next)
  | .error _ => (false, res.2, .ended)

def record (worker applyId path : String) (outcome : FileOutcome) (rest : List WorkspaceApplyFile) (now : Int)
    (t : ApplyTables) : Bool × ApplyTables × ApplyStage :=
  match outcome with
  | .done => answered (updateApplyFile applyId worker path .applied none .applying now t) (.files rest)
  | .conflict detail =>
    answered (updateApplyFile applyId worker path .conflict (some detail) .applying now t) (.ending .conflict)
  | .failure detail =>
    answered (updateApplyFile applyId worker path .failed (some detail) .applying now t) (.ending .failed)

/-- **The next call of a worker**, and whether a write of it was accepted. -/
def work (worker : String) (w : ApplyWorker) (outcome : FileOutcome) (now : Int) (t : ApplyTables) :
    Bool × ApplyTables × ApplyStage :=
  match w.stage with
  | .listing => (false, t, .files (listApplyFiles w.applyId t))
  | .files [] => answered (finishApply w.applyId worker .applied now t) .ended
  | .files (f :: rest) =>
    match f.status with
    | .applied => (false, t, .files rest)
    | .conflict => answered (finishApply w.applyId worker .conflict now t) .ended
    | .pending | .failed => record worker w.applyId f.path outcome rest now t
  | .ending status => answered (finishApply w.applyId worker status now t) .ended
  | .ended => (false, t, .ended)

variable (hash : BeginApply → String)

/-- **One call**; its answer says whether a write was accepted.  The name of a worker is used once. -/
def exec (s : ApplySystem) : ApplyCall → Bool × ApplySystem
  | .begin referenced applyId args => (false, { s with tables := (beginApply hash referenced applyId args s.tables).2 })
  | .claim worker applyId now leaseSeconds =>
    match s.workers worker with
    | some _ => (false, s)
    | none =>
      let called := claimApply applyId worker now leaseSeconds s.tables
      let stage := if called.1 = .ok true then ApplyStage.listing else .ended
      (false, ⟨called.2, Function.update s.workers worker (some ⟨applyId, stage⟩)⟩)
  | .turn worker outcome now =>
    match s.workers worker with
    | none => (false, s)
    | some w =>
      let worked := work worker w outcome now s.tables
      (worked.1, ⟨worked.2.1, Function.update s.workers worker (some ⟨w.applyId, worked.2.2⟩)⟩)

def run (calls : List ApplyCall) : ApplySystem := Calls.after (exec hash) start calls

def Owns (s : ApplySystem) (worker applyId : String) : Prop :=
  ∃ r, s.tables.receipts.row applyId = some r ∧ r.leaseOwner = some worker

def HoldsLock (s : ApplySystem) (worker applyId : String) : Prop :=
  ∃ r l, s.tables.receipts.row applyId = some r ∧ s.tables.locks.row r.workspaceId = some l ∧
    l.applyId = applyId ∧ l.leaseOwner = worker

/-- **A takeover**: a worker of another receipt claims the lock away. -/
def Overtakes (s : ApplySystem) (worker : String) (c : ApplyCall) : Prop :=
  ∃ applyId, HoldsLock s worker applyId ∧ ¬ HoldsLock (exec hash s c).2 worker applyId ∧
    ∃ other otherId now leaseSeconds, c = .claim other otherId now leaseSeconds ∧ otherId ≠ applyId

/-- **What should hold of every run.** -/
structure Exclusive (calls : List ApplyCall) : Prop where
  locked : ∀ pre worker outcome now post, calls = pre ++ .turn worker outcome now :: post →
    (exec hash (run hash pre) (.turn worker outcome now)).1 = true →
      ∃ w, (run hash pre).workers worker = some w ∧ HoldsLock (run hash pre) worker w.applyId
  refused : ∀ pre c mid worker outcome now post, calls = pre ++ c :: (mid ++ .turn worker outcome now :: post) →
    Overtakes hash (run hash pre) worker c →
      (exec hash (run hash (pre ++ c :: mid)) (.turn worker outcome now)).1 = false
  final : ∀ pre post, calls = pre ++ post → ∀ applyId r, (run hash pre).tables.receipts.row applyId = some r →
    r.status = .applied ∨ r.status = .conflict →
      ((run hash calls).tables.receipts.row applyId).map ApplyReceiptRow.status = some r.status
  complete : ∀ applyId r, (run hash calls).tables.receipts.row applyId = some r → r.status = .applied →
    ∀ q ∈ (run hash calls).tables.files.rows, q.applyId = applyId → q.file.status = .applied

def Writes (s : ApplySystem) (worker : String) (outcome : FileOutcome) : Prop :=
  ∃ w, s.workers worker = some w ∧ w.stage.writes outcome = true ∧ Owns s worker w.applyId

/-- **No worker writes late**: one whose lock was taken over has lost the lease of its receipt before its next
write. -/
def NoneLate (calls : List ApplyCall) : Prop :=
  ∀ pre c mid worker outcome now post, calls = pre ++ c :: (mid ++ .turn worker outcome now :: post) →
    Overtakes hash (run hash pre) worker c → ¬ Writes (run hash (pre ++ c :: mid)) worker outcome

/-! ## What a worker's call does -/

section Work

variable {t : ApplyTables} {worker : String} {w : ApplyWorker} {outcome : FileOutcome} {now : Int}

def afterFinish (t : ApplyTables) (r : ApplyReceiptRow) (worker : String) (status : ApplyStatus) (now : Int) :
    ApplyTables :=
  { t with
    receipts := t.receipts.update r.applyId (receiptFinish worker status now)
    locks := t.locks.remove r.workspaceId (fun l => l.applyId == r.applyId && l.leaseOwner == worker) }

def afterUpdate (t : ApplyTables) (r : ApplyReceiptRow) (worker path : String) (status : ApplyFileStatus)
    (error : Option String) (now : Int) : ApplyTables where
  receipts := t.receipts.update r.applyId (receiptExtend worker now)
  files := t.files.update (r.applyId, path) (fileOutcome status error now)
  locks := t.locks.update r.workspaceId (lockExtend r.applyId worker now)

def Leases (t : ApplyTables) (worker applyId : String) (r : ApplyReceiptRow) : Prop :=
  t.receipts.row applyId = some r ∧ r.leaseOwner = some worker

def Ends (status : ApplyStatus) : ApplyStage → Prop
  | .files [] => status = .applied
  | .files (f :: _) => f.status = .conflict ∧ status = .conflict
  | .ending st => status = st ∧ st ≠ .applying
  | _ => False

inductive Worked (t : ApplyTables) (worker : String) (w : ApplyWorker) : Bool → ApplyTables → ApplyStage → Prop
  | listed (hstage : w.stage = .listing) : Worked t worker w false t (.files (listApplyFiles w.applyId t))
  | skipped (f rest) (hstage : w.stage = .files (f :: rest)) (hf : f.status = .applied) :
    Worked t worker w false t (.files rest)
  | ended : Worked t worker w false t .ended
  | finished (r status now) (hleases : Leases t worker w.applyId r) (hends : Ends status w.stage) :
    Worked t worker w true (afterFinish t r worker status now) .ended
  | updated (r f rest status error now next) (hleases : Leases t worker w.applyId r)
      (hstage : w.stage = .files (f :: rest))
      (hnext : status = .applied ∧ next = .files rest ∨ ∃ st, st ≠ .applied ∧ next = .ending st) :
    Worked t worker w true (afterUpdate t r worker f.path status error now) next

theorem finish_cases {status : ApplyStatus} (hstatus : status ≠ .applying) :
    (∃ r, Leases t worker w.applyId r ∧ answered (finishApply w.applyId worker status now t) .ended =
        (true, afterFinish t r worker status now, .ended)) ∨
      (∀ r, ¬ Leases t worker w.applyId r) ∧
        answered (finishApply w.applyId worker status now t) .ended = (false, t, .ended) := by
  by_cases h : ∃ r, Leases t worker w.applyId r
  · obtain ⟨r, hrow, howner⟩ := h
    obtain ⟨-, hkey⟩ := Keyed.row_iff.1 hrow
    refine .inl ⟨r, ⟨hrow, howner⟩, ?_⟩
    rw [answered, finishApply_ok hstatus hrow howner, afterFinish, hkey]
  · rw [not_exists] at h
    obtain ⟨e, he⟩ := finishApply_error (fun r hrow howner => h r ⟨hrow, howner⟩)
    exact .inr ⟨h, by rw [answered, he]⟩

theorem update_cases {path : String} {status : ApplyFileStatus} {error : Option String} {next : ApplyStage}
    (hfile : (t.files.row (w.applyId, path)).isSome = true) :
    (error.any (fun e => decide (2048 < e.utf8ByteSize)) = false ∧
        ∃ r, Leases t worker w.applyId r ∧
          answered (updateApplyFile w.applyId worker path status error .applying now t) next =
            (true, afterUpdate t r worker path status error now, next)) ∨
      (error.any (fun e => decide (2048 < e.utf8ByteSize)) = true ∨ ∀ r, ¬ Leases t worker w.applyId r) ∧
        answered (updateApplyFile w.applyId worker path status error .applying now t) next = (false, t, .ended) := by
  by_cases h : error.any (fun e => decide (2048 < e.utf8ByteSize)) = false ∧ ∃ r, Leases t worker w.applyId r
  · obtain ⟨herror, r, hrow, howner⟩ := h
    obtain ⟨-, hkey⟩ := Keyed.row_iff.1 hrow
    refine .inl ⟨herror, r, ⟨hrow, howner⟩, ?_⟩
    rw [answered, updateApplyFile_ok herror hrow howner hfile, afterUpdate, hkey]
  · rw [not_and_or, Bool.not_eq_false, not_exists] at h
    obtain ⟨e, he⟩ := updateApplyFile_error (h.imp_right fun h r hrow howner => h r ⟨hrow, howner⟩)
    exact .inr ⟨h, by rw [answered, he]⟩

def Listed (t : ApplyTables) (w : ApplyWorker) : Prop :=
  ∀ rest, w.stage = .files rest → ∀ f ∈ rest, (t.files.row (w.applyId, f.path)).isSome = true

theorem worked (h : Listed t w) :
    Worked t worker w (work worker w outcome now t).1 (work worker w outcome now t).2.1
      (work worker w outcome now t).2.2 := by
  have hfinish (status : ApplyStatus) (hstatus : status ≠ .applying) (hends : Ends status w.stage) :
      Worked t worker w (answered (finishApply w.applyId worker status now t) .ended).1
        (answered (finishApply w.applyId worker status now t) .ended).2.1
        (answered (finishApply w.applyId worker status now t) .ended).2.2 := by
    rcases finish_cases hstatus with ⟨r, hleases, heq⟩ | ⟨-, heq⟩
    · rw [heq]
      exact .finished r status now hleases hends
    · rw [heq]
      exact .ended
  unfold work
  cases hstage : w.stage with
  | listing => exact .listed hstage
  | ended => exact .ended
  | ending status =>
    by_cases hstatus : status = .applying
    · subst hstatus
      simp only [answered, finishApply, if_true]
      exact .ended
    · exact hfinish status hstatus (by rw [hstage]; exact ⟨rfl, hstatus⟩)
  | files rest =>
    cases rest with
    | nil => exact hfinish .applied (by simp) (by rw [hstage]; rfl)
    | cons f rest =>
      have hfile := h _ hstage f (by simp)
      have hupdate (status : ApplyFileStatus) (error : Option String) (next : ApplyStage)
          (hnext : status = .applied ∧ next = .files rest ∨ ∃ st, st ≠ .applied ∧ next = .ending st) :
          Worked t worker w (answered (updateApplyFile w.applyId worker f.path status error .applying now t) next).1
            (answered (updateApplyFile w.applyId worker f.path status error .applying now t) next).2.1
            (answered (updateApplyFile w.applyId worker f.path status error .applying now t) next).2.2 := by
        rcases update_cases hfile with ⟨-, r, hleases, heq⟩ | ⟨-, heq⟩
        · rw [heq]
          exact .updated r f rest status error now next hleases hstage hnext
        · rw [heq]
          exact .ended
      have hrecord : Worked t worker w (record worker w.applyId f.path outcome rest now t).1
          (record worker w.applyId f.path outcome rest now t).2.1
          (record worker w.applyId f.path outcome rest now t).2.2 := by
        cases outcome with
        | done => exact hupdate .applied none _ (.inl ⟨rfl, rfl⟩)
        | conflict detail => exact hupdate .conflict (some detail) _ (.inr ⟨.conflict, by simp, rfl⟩)
        | failure detail => exact hupdate .failed (some detail) _ (.inr ⟨.failed, by simp, rfl⟩)
      cases hf : f.status with
      | applied => simpa only [hf] using Worked.skipped f rest hstage hf
      | conflict => simpa only [hf] using hfinish .conflict (by simp) (by rw [hstage]; exact ⟨hf, rfl⟩)
      | pending | failed => simpa only [hf] using hrecord

theorem accepted_iff (h : Listed t w) : (work worker w outcome now t).1 = true ↔
    w.stage.writes outcome = true ∧ ∃ r, Leases t worker w.applyId r := by
  have hfinish (status : ApplyStatus) (hstatus : status ≠ .applying) :
      (answered (finishApply w.applyId worker status now t) .ended).1 = true ↔ ∃ r, Leases t worker w.applyId r := by
    have hcases := @finish_cases t worker w now status hstatus
    rcases hcases with ⟨r, hleases, heq⟩ | ⟨hnone, heq⟩
    · simpa [heq] using ⟨r, hleases⟩
    · simpa [heq] using hnone
  unfold work
  cases hstage : w.stage with
  | listing | ended => simp [ApplyStage.writes]
  | ending status =>
    by_cases hstatus : status = .applying
    · subst hstatus
      simp [answered, finishApply, ApplyStage.writes]
    · simpa [ApplyStage.writes, hstatus] using hfinish status hstatus
  | files rest =>
    cases rest with
    | nil => simpa [ApplyStage.writes] using hfinish .applied (by simp)
    | cons f rest =>
      have hfile := h _ hstage f (by simp)
      have hupdate (status : ApplyFileStatus) (error : Option String) (next : ApplyStage) :
          (answered (updateApplyFile w.applyId worker f.path status error .applying now t) next).1 = true ↔
            error.any (fun e => decide (2048 < e.utf8ByteSize)) = false ∧ ∃ r, Leases t worker w.applyId r := by
        have hcases := @update_cases t worker w now f.path status error next hfile
        rcases hcases with ⟨herror, r, hleases, heq⟩ | ⟨hrefused, heq⟩
        · simpa [heq, herror] using ⟨r, hleases⟩
        · rcases hrefused with herror | hnone
          · simp [heq, herror]
          · simp [heq, hnone]
      have hrecord : (record worker w.applyId f.path outcome rest now t).1 = true ↔
          outcome.fits = true ∧ ∃ r, Leases t worker w.applyId r := by
        cases outcome with
        | done => simpa [record, FileOutcome.fits] using hupdate .applied none _
        | conflict detail => simpa [record, FileOutcome.fits] using hupdate .conflict (some detail) _
        | failure detail => simpa [record, FileOutcome.fits] using hupdate .failed (some detail) _
      cases hf : f.status with
      | applied => simp [ApplyStage.writes, hf]
      | conflict => simpa [ApplyStage.writes, hf] using hfinish .conflict (by simp)
      | pending | failed => simpa [ApplyStage.writes, hf] using hrecord

end Work

/-! ## What every call keeps -/

def Ahead (t : ApplyTables) (w : ApplyWorker) : Prop :=
  match w.stage with
  | .files rest => ∀ q ∈ t.files.rows, q.applyId = w.applyId →
    q.file.status = .applied ∨ ∃ f ∈ rest, f.path = q.file.path ∧ f.status = q.file.status
  | .ending status => status ≠ .applied
  | .listing | .ended => True

/-- **The invariant**: a lease names a worker of the receipt, which knows what is left of it; an applied receipt has
nothing left. -/
structure Sound (s : ApplySystem) : Prop where
  named : ∀ n applyId r, Leases s.tables n applyId r → ∃ w, s.workers n = some w ∧ w.applyId = applyId
  listed : ∀ n w, s.workers n = some w → Listed s.tables w
  ahead : ∀ n w r, s.workers n = some w → Leases s.tables n w.applyId r → Ahead s.tables w
  complete : ∀ applyId r, s.tables.receipts.row applyId = some r → r.status = .applied →
    ∀ q ∈ s.tables.files.rows, q.applyId = applyId → q.file.status = .applied

theorem Sound.start : Sound start := by
  refine ⟨?_, nofun, nofun, nofun⟩
  rintro n applyId r ⟨hrow, -⟩
  cases hrow

section Kept

variable {s : ApplySystem} {worker : String} {w : ApplyWorker}

theorem Sound.of_same (h : Sound s) (hname : ∀ v, s.workers worker = some v → v.applyId = w.applyId)
    (hlisted : Listed s.tables w) (hahead : ∀ r, Leases s.tables worker w.applyId r → Ahead s.tables w) :
    Sound ⟨s.tables, Function.update s.workers worker (some w)⟩ := by
  refine ⟨fun n applyId r hleases => ?_, fun n v hv => ?_, fun n v r hv hleases => ?_, h.complete⟩
  · obtain ⟨v, hv, hid⟩ := h.named n applyId r hleases
    by_cases hn : n = worker
    · subst hn
      exact ⟨w, by simp, by rw [← hname v hv, hid]⟩
    · exact ⟨v, by simp [hn, hv], hid⟩
  · rcases update_some_cases hv with ⟨rfl, rfl⟩ | ⟨-, hv⟩
    · exact hlisted
    · exact h.listed n v hv
  · rcases update_some_cases hv with ⟨rfl, rfl⟩ | ⟨-, hv⟩
    · exact hahead r hleases
    · exact h.ahead n v r hv hleases

theorem Sound.begin (h : Sound s) (referenced : Bool) (applyId : String) (a : BeginApply) :
    Sound { s with tables := (beginApply hash referenced applyId a s.tables).2 } := by
  rcases beginApply_cases hash referenced applyId a s.tables with hsame | ⟨receipts, files, hnew, hinsert, hfiles⟩
  · rw [hsame]
    exact h
  · rw [hnew]
    obtain ⟨hnone, hrows⟩ := Keyed.insert?_eq_some hinsert
    obtain ⟨hsource, hkept⟩ := insertFiles_rows hfiles
    -- a receipt with a lease or an end is an old one, and its files are the old ones
    have hold {id : String} {r : ApplyReceiptRow} (hrow : receipts.row id = some r)
        (hr : r.leaseOwner.isSome = true ∨ r.status ≠ .applying) : s.tables.receipts.row id = some r ∧ id ≠ applyId := by
      rw [hrows] at hrow
      by_cases hid : id = applyId
      · subst hid
        rw [show s.tables.receipts.row id = none from hnone, Option.none_or,
          if_pos (show (a.receipt (hash a) id).applyId = id from rfl)] at hrow
        cases hrow
        simp [BeginApply.receipt] at hr
      · refine ⟨?_, hid⟩
        have hne : ¬ (a.receipt (hash a) applyId).applyId = id := Ne.symm hid
        simpa [hne] using hrow
    have holdFile {id : String} (hid : id ≠ applyId) {q : ApplyFileRow} (hq : q ∈ files.rows) (hqid : q.applyId = id) :
        q ∈ s.tables.files.rows :=
      (hsource q hq).resolve_right fun hsame => hid (hqid.symm.trans hsame)
    refine ⟨fun n id r hleases => ?_, fun n w hw rest hrest f hf => ?_, fun n w r hw hleases => ?_,
      fun id r hrow hstatus q hq hqid => ?_⟩
    · obtain ⟨hrow, -⟩ := hold hleases.1 (.inl (by rw [hleases.2]; rfl))
      exact h.named n id r ⟨hrow, hleases.2⟩
    · obtain ⟨q, hq⟩ := Option.isSome_iff_exists.1 (h.listed n w hw rest hrest f hf)
      obtain ⟨hmem, hkey⟩ := Keyed.row_iff.1 hq
      exact Option.isSome_iff_exists.2 ⟨q, Keyed.row_iff.2 ⟨hkept q hmem, hkey⟩⟩
    · obtain ⟨hrow, hid⟩ := hold hleases.1 (.inl (by rw [hleases.2]; rfl))
      have hahead := h.ahead n w r hw ⟨hrow, hleases.2⟩
      unfold Ahead at hahead ⊢
      cases hstage : w.stage with
      | files rest =>
        rw [hstage] at hahead
        exact fun q hq hqid => hahead q (holdFile hid hq hqid) hqid
      | ending status => rw [hstage] at hahead; exact hahead
      | _ => trivial
    · obtain ⟨hrow, hid⟩ := hold hrow (.inr (by rw [hstatus]; simp))
      exact h.complete id r hrow hstatus q (holdFile hid hq hqid) hqid

theorem Sound.claim (h : Sound s) (hnew : s.workers worker = none) (applyId : String) (now leaseSeconds : Int) :
    Sound (exec hash s (.claim worker applyId now leaseSeconds)).2 := by
  simp only [exec, hnew]
  rcases claimApply_cases applyId worker now leaseSeconds s.tables with
    ⟨hsame, hfails⟩ | ⟨r, locks, expires, hrow, hclaimable, -, -, htakes, hclaims⟩
  · rw [hsame, if_neg hfails]
    exact h.of_same (by simp [hnew]) nofun (fun r hleases => by
      obtain ⟨w, hw, -⟩ := h.named _ _ r hleases
      rw [hnew] at hw
      cases hw)
  · simp only [hclaims, if_true]
    have hset := Keyed.row_update_of_changed hrow (c := receiptClaim worker now expires) htakes
    -- the receipt is the worker's now; the others are as before
    have hold {id n : String} {q : ApplyReceiptRow}
        (hq : (s.tables.receipts.update applyId (receiptClaim worker now expires)).row id = some q) :
        id = applyId ∧ q = (receiptClaim worker now expires).set r ∨ id ≠ applyId ∧ s.tables.receipts.row id = some q := by
      by_cases hid : id = applyId
      · subst hid
        exact .inl ⟨rfl, (Option.mem_unique hset hq).symm⟩
      · exact .inr ⟨hid, by rwa [Keyed.row_update_of_ne _ hid] at hq⟩
    have hother {n : String} {id : String} {q : ApplyReceiptRow} (hleases : Leases s.tables n id q) : n ≠ worker := by
      rintro rfl
      obtain ⟨w, hw, -⟩ := h.named _ _ q hleases
      rw [hnew] at hw
      cases hw
    refine ⟨?_, fun n w hw => ?_, ?_, ?_⟩
    · rintro n id q ⟨hq, howner⟩
      rcases hold (n := n) hq with ⟨rfl, rfl⟩ | ⟨-, hbefore⟩
      · obtain rfl : worker = n := Option.some.inj howner
        exact ⟨⟨id, .listing⟩, by simp, rfl⟩
      · obtain ⟨w, hw, hid⟩ := h.named n id q ⟨hbefore, howner⟩
        exact ⟨w, by simp [hother ⟨hbefore, howner⟩, hw], hid⟩
    · rcases update_some_cases hw with ⟨rfl, rfl⟩ | ⟨-, hw⟩
      · rintro rest ⟨⟩
      · exact h.listed n w hw
    · rintro n w q hw ⟨hq, howner⟩
      rcases hold (n := n) hq with ⟨hid, rfl⟩ | ⟨-, hbefore⟩
      · obtain rfl : worker = n := Option.some.inj howner
        simp only [Function.update_self, Option.some.injEq] at hw
        subst hw
        trivial
      · simp only [Function.update_of_ne (hother ⟨hbefore, howner⟩)] at hw
        exact h.ahead n w q hw ⟨hbefore, howner⟩
    · intro id q hq hstatus
      rcases hold (n := worker) hq with ⟨-, rfl⟩ | ⟨-, hbefore⟩
      · cases hstatus
      · exact h.complete id q hbefore hstatus

theorem Sound.finished {r : ApplyReceiptRow} {status : ApplyStatus} {now : Int} (h : Sound s)
    (hw : s.workers worker = some w) (hleases : Leases s.tables worker w.applyId r) (hends : Ends status w.stage) :
    Sound ⟨afterFinish s.tables r worker status now, Function.update s.workers worker (some ⟨w.applyId, .ended⟩)⟩ := by
  have hkey : r.applyId = w.applyId := Keyed.key_of_row hleases.1
  have hrow : s.tables.receipts.row r.applyId = some r := hkey ▸ hleases.1
  have hset := Keyed.row_update_of_changed hrow (c := receiptFinish worker status now)
    (by simp [receiptFinish, hleases.2])
  have hold {id : String} {q : ApplyReceiptRow}
      (hq : (s.tables.receipts.update r.applyId (receiptFinish worker status now)).row id = some q) :
      id = r.applyId ∧ q = (receiptFinish worker status now).set r ∨
        id ≠ r.applyId ∧ s.tables.receipts.row id = some q := by
    by_cases hid : id = r.applyId
    · exact .inl ⟨hid, (Option.mem_unique hset (hid ▸ hq)).symm⟩
    · exact .inr ⟨hid, by rwa [Keyed.row_update_of_ne _ hid] at hq⟩
  refine ⟨?_, fun n v hv => ?_, ?_, fun id q hq hstatus => ?_⟩
  · rintro n id q ⟨hq, howner⟩
    rcases hold hq with ⟨-, rfl⟩ | ⟨-, hbefore⟩
    · cases howner
    · obtain ⟨v, hv, hid⟩ := h.named n id q ⟨hbefore, howner⟩
      by_cases hn : n = worker
      · subst hn
        cases hw.symm.trans hv
        exact ⟨⟨w.applyId, .ended⟩, by simp, hid⟩
      · exact ⟨v, by simp [hn, hv], hid⟩
  · rcases update_some_cases hv with ⟨rfl, rfl⟩ | ⟨-, hv⟩
    · rintro rest ⟨⟩
    · exact h.listed n v hv
  · rintro n v q hv ⟨hq, howner⟩
    rcases hold hq with ⟨-, rfl⟩ | ⟨-, hbefore⟩
    · cases howner
    · rcases update_some_cases hv with ⟨rfl, rfl⟩ | ⟨-, hv⟩
      · trivial
      · exact h.ahead n v q hv ⟨hbefore, howner⟩
  · rcases hold hq with ⟨rfl, rfl⟩ | ⟨-, hbefore⟩
    · obtain rfl : status = .applied := hstatus
      -- the worker has worked off its list
      have hahead := h.ahead worker w r hw hleases
      rw [hkey]
      unfold Ahead at hahead
      cases hstage : w.stage with
      | files rest =>
        cases rest with
        | nil =>
          rw [hstage] at hahead
          exact fun f hf hid => (hahead f hf hid).resolve_right (by simp)
        | cons f rest => rw [hstage] at hends; exact absurd hends.2 (by simp)
      | ending st =>
        rw [hstage] at hahead hends
        exact (hahead hends.1.symm).elim
      | listing | ended => rw [hstage] at hends; exact hends.elim
    · exact h.complete id q hbefore hstatus

theorem Sound.updated {r : ApplyReceiptRow} {f : WorkspaceApplyFile} {rest : List WorkspaceApplyFile}
    {status : ApplyFileStatus} {error : Option String} {now : Int} {next : ApplyStage} (h : Sound s)
    (hw : s.workers worker = some w) (hleases : Leases s.tables worker w.applyId r)
    (hstage : w.stage = .files (f :: rest))
    (hnext : status = .applied ∧ next = .files rest ∨ ∃ st, st ≠ .applied ∧ next = .ending st) :
    Sound ⟨afterUpdate s.tables r worker f.path status error now,
      Function.update s.workers worker (some ⟨w.applyId, next⟩)⟩ := by
  have hkey : r.applyId = w.applyId := Keyed.key_of_row hleases.1
  have hrow : s.tables.receipts.row r.applyId = some r := hkey ▸ hleases.1
  have hset := Keyed.row_update_of_changed hrow (c := receiptExtend worker now) (by simp [receiptExtend, hleases.2])
  have hold {id : String} {q : ApplyReceiptRow}
      (hq : (s.tables.receipts.update r.applyId (receiptExtend worker now)).row id = some q) :
      id = r.applyId ∧ q = (receiptExtend worker now).set r ∨ id ≠ r.applyId ∧ s.tables.receipts.row id = some q := by
    by_cases hid : id = r.applyId
    · exact .inl ⟨hid, (Option.mem_unique hset (hid ▸ hq)).symm⟩
    · exact .inr ⟨hid, by rwa [Keyed.row_update_of_ne _ hid] at hq⟩
  -- the files of another receipt are not touched
  have hfile {id : String} (hid : id ≠ r.applyId) {q : ApplyFileRow}
      (hq : q ∈ (s.tables.files.update (r.applyId, f.path) (fileOutcome status error now)).rows) (hqid : q.applyId = id) :
      q ∈ s.tables.files.rows := by
    obtain ⟨p, hp, -, ⟨-, rfl⟩ | ⟨hqkey, -⟩⟩ := Keyed.mem_update hq
    · exact hp
    · exact (hid (hqid.symm.trans (congrArg Prod.fst hqkey))).elim
  have hlisted {v : ApplyWorker} (hv : Listed s.tables v) :
      Listed (afterUpdate s.tables r worker f.path status error now) v :=
    fun l hl g hg => Keyed.row_isSome_update _ (hv l hl g hg)
  refine ⟨?_, fun n v hv => ?_, ?_, fun id q hq hstatus => ?_⟩
  · rintro n id q ⟨hq, howner⟩
    have hbefore : ∃ p, Leases s.tables n id p := by
      rcases hold hq with ⟨rfl, rfl⟩ | ⟨-, hbefore⟩
      · exact ⟨r, hrow, howner⟩
      · exact ⟨q, hbefore, howner⟩
    obtain ⟨p, hp⟩ := hbefore
    obtain ⟨v, hv, hid⟩ := h.named n id p hp
    by_cases hn : n = worker
    · subst hn
      cases hw.symm.trans hv
      exact ⟨⟨w.applyId, next⟩, by simp, hid⟩
    · exact ⟨v, by simp [hn, hv], hid⟩
  · rcases update_some_cases hv with ⟨rfl, rfl⟩ | ⟨-, hv⟩
    · intro l hl g hg
      obtain ⟨-, rfl⟩ | ⟨st, -, rfl⟩ := hnext
      · obtain rfl := ApplyStage.files.inj hl
        exact hlisted (h.listed n w hw) _ hstage g (by simp [hg])
      · cases hl
    · exact hlisted (h.listed n v hv)
  · rintro n v q hv ⟨hq, howner⟩
    rcases update_some_cases hv with ⟨rfl, rfl⟩ | ⟨hn, hv⟩
    · have hahead := h.ahead n w r hw hleases
      unfold Ahead at hahead ⊢
      rw [hstage] at hahead
      obtain ⟨rfl, rfl⟩ | ⟨st, hst, rfl⟩ := hnext
      · intro p hp hpid
        obtain ⟨p', hp', hsame, ⟨hne, rfl⟩ | ⟨-, rfl⟩⟩ := Keyed.mem_update hp
        · refine (hahead p hp' hpid).imp_right ?_
          rintro ⟨g, hg, hpath, hstatus⟩
          refine ⟨g, (List.mem_cons.1 hg).resolve_left ?_, hpath, hstatus⟩
          rintro rfl
          exact hne (Prod.ext (hpid.trans hkey.symm) hpath.symm)
        · exact .inl rfl
      · exact hst
    · rcases hold hq with ⟨hid, rfl⟩ | ⟨hid, hbefore⟩
      · exact (hn (Option.mem_unique howner hleases.2)).elim
      · have hahead := h.ahead n v q hv ⟨hbefore, howner⟩
        unfold Ahead at hahead ⊢
        cases hvstage : v.stage with
        | files l =>
          rw [hvstage] at hahead
          exact fun p hp hpid => hahead p (hfile hid hp hpid) hpid
        | ending st => rw [hvstage] at hahead; exact hahead
        | _ => trivial
  · rcases hold hq with ⟨-, rfl⟩ | ⟨hid, hbefore⟩
    · cases hstatus
    · exact fun p hp hpid => h.complete id q hbefore hstatus p (hfile hid hp hpid) hpid

theorem Sound.kept (h : Sound s) (c : ApplyCall) : Sound (exec hash s c).2 := by
  cases c with
  | begin referenced applyId args => exact h.begin hash referenced applyId args
  | claim n applyId now leaseSeconds =>
    cases hn : s.workers n with
    | none => exact h.claim hash hn applyId now leaseSeconds
    | some w => simpa only [exec, hn] using h
  | turn n outcome now =>
    cases hn : s.workers n with
    | none => simpa only [exec, hn] using h
    | some w =>
      simp only [exec, hn]
      have hworked := @worked s.tables n w outcome now (h.listed n w hn)
      generalize (work n w outcome now s.tables).1 = ok at hworked
      generalize (work n w outcome now s.tables).2.1 = t at hworked ⊢
      generalize (work n w outcome now s.tables).2.2 = next at hworked ⊢
      have hname : ∀ v, s.workers n = some v → v.applyId = w.applyId := by
        intro v hv
        rw [Option.mem_unique hv hn]
      cases hworked with
      | listed hstage =>
        refine h.of_same hname ?_ (fun r _ => ?_)
        · rintro l hl f hf
          obtain rfl := ApplyStage.files.inj hl
          rw [listApplyFiles, mem_orderBy, List.mem_map] at hf
          obtain ⟨q, hq, rfl⟩ := hf
          obtain ⟨hq, hid⟩ := List.mem_filter.1 hq
          rw [beq_iff_eq] at hid
          exact Option.isSome_iff_exists.2 ⟨q, Keyed.row_iff.2 ⟨hq, by rw [ApplyFileRow.key, hid]⟩⟩
        · intro q hq hid
          refine .inr ⟨q.file, ?_, rfl, rfl⟩
          rw [listApplyFiles, mem_orderBy]
          exact List.mem_map_of_mem (List.mem_filter.2 ⟨hq, by simpa using hid⟩)
      | skipped f rest hstage hf =>
        refine h.of_same hname ?_ (fun r hleases => ?_)
        · rintro l hl g hg
          obtain rfl := ApplyStage.files.inj hl
          exact h.listed n w hn _ hstage g (by simp [hg])
        · have hahead := h.ahead n w r hn hleases
          unfold Ahead at hahead ⊢
          rw [hstage] at hahead
          intro q hq hid
          rcases hahead q hq hid with happlied | ⟨g, hg, hpath, hstatus⟩
          · exact .inl happlied
          · rcases List.mem_cons.1 hg with rfl | hg
            · exact .inl (hstatus.symm.trans hf)
            · exact .inr ⟨g, hg, hpath, hstatus⟩
      | ended => exact h.of_same hname nofun (fun _ _ => trivial)
      | finished r status at_ hleases hends => exact h.finished hn hleases hends
      | updated r f rest status error at_ _ hleases hstage hnext => exact h.updated hn hleases hstage hnext

end Kept

end ApplySystem

end Execlaw
