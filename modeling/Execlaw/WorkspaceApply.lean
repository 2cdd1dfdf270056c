import Execlaw.Calls
import Execlaw.Keyed
import Execlaw.Outbox
import Mathlib.Data.String.Basic
/-!
# WorkspaceApply — receipts, files and locks of a diff application (`core/src/workspaces.rs`)

A receipt and the lock of its workspace are leased together by `claimApply`; a write of a file's outcome and the end
of the application look at the lease of the receipt alone.  Identifiers the source draws at random, the hash of the
request and the rows of the tables a receipt refers to are arguments.
-/
namespace Execlaw

open Table

inductive WorkspaceStoreError
  | db (error : DbError)
  | invalid (msg : String)
  | conflict (msg : String)

inductive ApplyStatus | applying | applied | conflict | failed
deriving DecidableEq

inductive ApplyFileStatus | pending | applied | conflict | failed

structure WorkspaceApplyFile where
  path : String
  baseSha256 : Option String
  proposedSha256 : Option String
  status : ApplyFileStatus
  error : Option String

structure ApplyReceiptRow where
  applyId : String
  runId : String
  workspaceId : String
  checkpointId : String
  clientRequestId : String
  requestHash : String
  previewHash : String
  status : ApplyStatus
  leaseOwner : Option String
  leaseExpiresAt : Option Int
  createdAt : Int
  updatedAt : Int

structure ApplyReceiptRow.Ok (r : ApplyReceiptRow) : Prop where
  lease : r.leaseOwner.isSome = r.leaseExpiresAt.isSome
  leased : r.status = .applying ∨ r.leaseOwner = none

structure ApplyFileRow where
  applyId : String
  file : WorkspaceApplyFile
  updatedAt : Int

def ApplyFileRow.key (r : ApplyFileRow) : String × String := (r.applyId, r.file.path)

structure ApplyLockRow where
  workspaceId : String
  applyId : String
  leaseOwner : String
  leaseExpiresAt : Int

structure ApplyTables where
  receipts : Keyed ApplyReceiptRow.applyId ApplyReceiptRow.Ok
  files : Keyed ApplyFileRow.key (fun _ => True)
  locks : Keyed ApplyLockRow.workspaceId (fun _ => True)

namespace WorkspaceStore

abbrev ReceiptChange := Change ApplyReceiptRow.applyId ApplyReceiptRow.Ok
abbrev FileChange := Change ApplyFileRow.key (fun _ => True)
abbrev LockChange := Change ApplyLockRow.workspaceId (fun _ => True)

/-! ## Beginning -/

/-- The arguments of `begin_apply`. -/
structure BeginApply where
  runId : String
  workspaceId : String
  checkpointId : String
  previewHash : String
  clientRequestId : String
  changes : List WorkspaceApplyFile
  now : Int

def BeginApply.valid (a : BeginApply) : Bool :=
  a.previewHash.utf8ByteSize == 64 && !a.clientRequestId.isEmpty && decide (a.clientRequestId.utf8ByteSize ≤ 128) &&
    a.clientRequestId.toList.all (fun c => decide (0x21 ≤ c.toNat ∧ c.toNat ≤ 0x7E)) &&
    decide (a.changes.length ≤ 10000)

def BeginApply.receipt (a : BeginApply) (requestHash applyId : String) : ApplyReceiptRow where
  applyId := applyId
  runId := a.runId
  workspaceId := a.workspaceId
  checkpointId := a.checkpointId
  clientRequestId := a.clientRequestId
  requestHash := requestHash
  previewHash := a.previewHash
  status := .applying
  leaseOwner := none
  leaseExpiresAt := none
  createdAt := a.now
  updatedAt := a.now

theorem BeginApply.receipt_ok (a : BeginApply) (requestHash applyId : String) : (a.receipt requestHash applyId).Ok :=
  ⟨rfl, .inl rfl⟩

def fileRow (applyId : String) (now : Int) (change : WorkspaceApplyFile) : ApplyFileRow :=
  ⟨applyId, ⟨change.path, change.baseSha256, change.proposedSha256, .pending, none⟩, now⟩

/-- The `INSERT`s of the files, in order. -/
def insertFiles (applyId : String) (now : Int) : List WorkspaceApplyFile → Keyed ApplyFileRow.key (fun _ => True) →
    Except DbError (Keyed ApplyFileRow.key (fun _ => True))
  | [], files => .ok files
  | change :: changes, files =>
    match files.insert? (fileRow applyId now change) trivial with
    | none => .error (.sqlite
        "UNIQUE constraint failed: state_workspace_apply_files.apply_id, state_workspace_apply_files.path")
    | some files => insertFiles applyId now changes files

def beginBody (requestHash : String) (referenced : Bool) (applyId : String) (a : BeginApply) (t : ApplyTables) :
    Except DbError ((ApplyReceiptRow × Bool) × ApplyTables) :=
  match t.receipts.rows.find? (fun r => r.runId == a.runId && r.clientRequestId == a.clientRequestId) with
  | some existing =>
    if existing.requestHash ≠ requestHash then
      .error (.invariant "workspace apply idempotency key was reused with a different diff")
    else .ok ((existing, false), t)
  | none =>
    match t.receipts.insert? (a.receipt requestHash applyId) (a.receipt_ok requestHash applyId) with
    | none => .error (.sqlite "UNIQUE constraint failed: state_workspace_apply_receipts.apply_id")
    | some receipts =>
      if !referenced then .error (.sqlite "FOREIGN KEY constraint failed")
      else
        match insertFiles applyId a.now a.changes t.files with
        | .error e => .error e
        | .ok files => .ok ((a.receipt requestHash applyId, true), { t with receipts := receipts, files := files })

def beginApply (hash : BeginApply → String) (referenced : Bool) (applyId : String) (a : BeginApply) (t : ApplyTables) :
    Except WorkspaceStoreError (ApplyReceiptRow × Bool) × ApplyTables :=
  if !a.valid then (.error (.invalid "workspace apply request exceeds its bounds"), t)
  else
    match Calls.transact (beginBody (hash a) referenced applyId a) t with
    | (.ok res, t') => (.ok res, t')
    | (.error e, t') => (.error (.db e), t')

def listApplyFiles (applyId : String) (t : ApplyTables) : List WorkspaceApplyFile :=
  orderBy WorkspaceApplyFile.path ((t.files.rows.filter (fun r => r.applyId == applyId)).map ApplyFileRow.file)

def claimable (status : ApplyStatus) : Bool := status == .applying || status == .failed

def lockClaim (applyId owner : String) (now expires : Int) : LockChange where
  takes := fun l => decide (l.leaseExpiresAt ≤ now) || l.leaseOwner == owner
  set := fun l => { l with applyId := applyId, leaseOwner := owner, leaseExpiresAt := expires }
  key_set := fun _ => rfl
  keeps_ok := fun _ h _ => h

def receiptClaim (owner : String) (now expires : Int) : ReceiptChange where
  takes := fun r => claimable r.status &&
    (r.leaseOwner == none || r.leaseExpiresAt.any (fun e => decide (e ≤ now)) || r.leaseOwner == some owner)
  set := fun r =>
    { r with status := .applying, leaseOwner := some owner, leaseExpiresAt := some expires, updatedAt := now }
  key_set := fun _ => rfl
  keeps_ok := fun _ _ _ => ⟨rfl, .inl rfl⟩

def claimBody (applyId owner : String) (now leaseSeconds : Int) (t : ApplyTables) : Except DbError (Bool × ApplyTables) :=
  match (t.receipts.row applyId).filter (fun r => claimable r.status) with
  | none => .ok (false, t)
  | some r =>
    let expires := saturatingAdd now (max leaseSeconds 1)
    let locks := t.locks.insertOrIgnore ⟨r.workspaceId, applyId, owner, expires⟩ trivial
    if locks.changed r.workspaceId (lockClaim applyId owner now expires) then
      if t.receipts.changed applyId (receiptClaim owner now expires) then
        .ok (true, { t with
          receipts := t.receipts.update applyId (receiptClaim owner now expires)
          locks := locks.update r.workspaceId (lockClaim applyId owner now expires) })
      else .error (.invariant "workspace apply receipt lease changed while root lock was claimed")
    else .ok (false, { t with locks := locks })

def claimApply (applyId owner : String) (now leaseSeconds : Int) (t : ApplyTables) : Except DbError Bool × ApplyTables :=
  Calls.transact (claimBody applyId owner now leaseSeconds) t

/-! ## Writes of the worker -/

def receiptFinish (owner : String) (status : ApplyStatus) (now : Int) : ReceiptChange where
  takes := fun r => r.leaseOwner == some owner
  set := fun r => { r with status := status, leaseOwner := none, leaseExpiresAt := none, updatedAt := now }
  key_set := fun _ => rfl
  keeps_ok := fun _ _ _ => ⟨rfl, .inr rfl⟩

def finishBody (applyId owner : String) (status : ApplyStatus) (now : Int) (t : ApplyTables) :
    Except DbError (Unit × ApplyTables) :=
  match t.receipts.row applyId with
  | none => .error noRows
  | some r =>
    if t.receipts.changed applyId (receiptFinish owner status now) then
      .ok ((), { t with
        receipts := t.receipts.update applyId (receiptFinish owner status now)
        locks := t.locks.remove r.workspaceId (fun l => l.applyId == applyId && l.leaseOwner == owner) })
    else .error (.invariant "workspace apply lease was lost")

def finishApply (applyId owner : String) (status : ApplyStatus) (now : Int) (t : ApplyTables) :
    Except WorkspaceStoreError Unit × ApplyTables :=
  if status = .applying then (.error (.invalid "invalid terminal workspace apply status"), t)
  else
    match Calls.transact (finishBody applyId owner status now) t with
    | (.ok (), t') => (.ok (), t')
    | (.error e, t') => (.error (.db e), t')

def fileOutcome (status : ApplyFileStatus) (error : Option String) (now : Int) : FileChange where
  takes := fun _ => true
  set := fun r => { r with file := { r.file with status := status, error := error }, updatedAt := now }
  key_set := fun _ => rfl
  keeps_ok := fun _ h _ => h

/-- The lease of the receipt, kept at status `applying`: any other breaks a check while the lease runs. -/
def receiptExtend (owner : String) (now : Int) : ReceiptChange where
  takes := fun r => r.leaseOwner == some owner
  set := fun r =>
    { r with status := .applying, leaseExpiresAt := r.leaseOwner.map (fun _ => saturatingAdd now 60)
             updatedAt := saturatingAdd now 60 }
  key_set := fun _ => rfl
  keeps_ok := fun _ _ _ => ⟨by simp, .inl rfl⟩

def lockExtend (applyId owner : String) (now : Int) : LockChange where
  takes := fun l => l.applyId == applyId && l.leaseOwner == owner
  set := fun l => { l with leaseExpiresAt := saturatingAdd now 60 }
  key_set := fun _ => rfl
  keeps_ok := fun _ h _ => h

def updateBody (applyId owner path : String) (status : ApplyFileStatus) (error : Option String)
    (receiptStatus : ApplyStatus) (now : Int) (t : ApplyTables) : Except DbError (Unit × ApplyTables) :=
  match t.receipts.row applyId with
  | none => .error noRows
  | some r =>
    if r.leaseOwner ≠ some owner then .error (.invariant "workspace apply lease was lost")
    else if !t.files.changed (applyId, path) (fileOutcome status error now) then
      .error (.invariant "workspace apply file receipt not found")
    else if receiptStatus ≠ .applying then
      .error (.sqlite "CHECK constraint failed: status='applying' OR lease_owner IS NULL")
    else
      .ok ((), { receipts := t.receipts.update applyId (receiptExtend owner now)
                 files := t.files.update (applyId, path) (fileOutcome status error now)
                 locks := t.locks.update r.workspaceId (lockExtend applyId owner now) })

def updateApplyFile (applyId owner path : String) (status : ApplyFileStatus) (error : Option String)
    (receiptStatus : ApplyStatus) (now : Int) (t : ApplyTables) : Except WorkspaceStoreError Unit × ApplyTables :=
  if error.any (fun e => decide (2048 < e.utf8ByteSize)) then
    (.error (.invalid "workspace apply status or error exceeds its bounds"), t)
  else
    match Calls.transact (updateBody applyId owner path status error receiptStatus now) t with
    | (.ok (), t') => (.ok (), t')
    | (.error e, t') => (.error (.db e), t')

/-! ## What each call does -/

section Cases

variable {t : ApplyTables} {applyId owner path : String} {now : Int}

theorem insertFiles_rows {changes : List WorkspaceApplyFile} {files files' : Keyed ApplyFileRow.key (fun _ => True)}
    (h : insertFiles applyId now changes files = .ok files') :
    (∀ q ∈ files'.rows, q ∈ files.rows ∨ q.applyId = applyId) ∧ ∀ q ∈ files.rows, q ∈ files'.rows := by
  induction changes generalizing files with
  | nil =>
    cases h
    exact ⟨fun q hq => .inl hq, fun q hq => hq⟩
  | cons change changes ih =>
    rw [insertFiles] at h
    cases hinsert : files.insert? (fileRow applyId now change) trivial with
    | none => rw [hinsert] at h; cases h
    | some files₁ =>
      rw [hinsert] at h
      obtain ⟨hsource, hkept⟩ := ih h
      have hrows := Keyed.rows_insert? hinsert
      refine ⟨fun q hq => ?_, fun q hq => hkept q (by rw [hrows]; exact List.mem_append_left _ hq)⟩
      rcases hsource q hq with hq | hq
      · rw [hrows, List.mem_append, List.mem_singleton] at hq
        exact hq.imp_right fun hq => by rw [hq]; rfl
      · exact .inr hq

theorem beginApply_cases (hash : BeginApply → String) (referenced : Bool) (applyId : String) (a : BeginApply)
    (t : ApplyTables) :
    (beginApply hash referenced applyId a t).2 = t ∨
      ∃ receipts files, (beginApply hash referenced applyId a t).2 = { t with receipts := receipts, files := files } ∧
        t.receipts.insert? (a.receipt (hash a) applyId) (a.receipt_ok (hash a) applyId) = some receipts ∧
        insertFiles applyId a.now a.changes t.files = .ok files := by
  unfold beginApply
  split
  · exact .inl rfl
  · rcases Calls.transact_cases (beginBody (hash a) referenced applyId a) t with ⟨e, -, h⟩ | ⟨res, t', hbody, h⟩
    · rw [h]
      exact .inl rfl
    · rw [h]
      unfold beginBody at hbody
      split at hbody
      · split at hbody
        · cases hbody
        · cases hbody
          exact .inl rfl
      · cases hinsert : t.receipts.insert? (a.receipt (hash a) applyId) (a.receipt_ok (hash a) applyId) with
        | none => rw [hinsert] at hbody; cases hbody
        | some receipts =>
          rw [hinsert] at hbody
          dsimp only at hbody
          split at hbody
          · cases hbody
          · cases hfiles : insertFiles applyId a.now a.changes t.files with
            | error e => rw [hfiles] at hbody; cases hbody
            | ok files =>
              rw [hfiles] at hbody
              cases hbody
              exact .inr ⟨receipts, files, rfl, rfl, rfl⟩

theorem claimApply_cases (applyId owner : String) (now leaseSeconds : Int) (t : ApplyTables) :
    (claimApply applyId owner now leaseSeconds t).2 = t ∧ (claimApply applyId owner now leaseSeconds t).1 ≠ .ok true ∨
      ∃ r locks expires, t.receipts.row applyId = some r ∧ claimable r.status = true ∧
        locks = t.locks.insertOrIgnore ⟨r.workspaceId, applyId, owner, expires⟩ trivial ∧
        locks.changed r.workspaceId (lockClaim applyId owner now expires) = true ∧
        (receiptClaim owner now expires).takes r = true ∧
        claimApply applyId owner now leaseSeconds t = (.ok true,
          { t with
            receipts := t.receipts.update applyId (receiptClaim owner now expires)
            locks := locks.update r.workspaceId (lockClaim applyId owner now expires) }) := by
  unfold claimApply
  rcases Calls.transact_cases (claimBody applyId owner now leaseSeconds) t with ⟨e, -, h⟩ | ⟨taken, t', hbody, h⟩
  · exact .inl (by rw [h]; exact ⟨rfl, by simp⟩)
  · rw [h]
    unfold claimBody at hbody
    cases hrow : (t.receipts.row applyId).filter (fun r => claimable r.status) with
    | none =>
      rw [hrow] at hbody
      cases hbody
      exact .inl ⟨rfl, by simp⟩
    | some r =>
      rw [hrow] at hbody
      obtain ⟨hr, hclaimable⟩ := Option.filter_eq_some_iff.1 hrow
      dsimp only at hbody
      split at hbody
      · next hlock =>
        split at hbody
        · next hreceipt =>
          obtain ⟨q, hq, htakes⟩ := Keyed.changed_iff.1 hreceipt
          cases hr.symm.trans hq
          cases hbody
          exact .inr ⟨r, _, _, hr, hclaimable, rfl, hlock, htakes, rfl⟩
        · cases hbody
      · next hlock =>
        cases hbody
        refine .inl ⟨?_, by simp⟩
        -- the lock was there: an insert of its own would have been taken
        by_cases hfresh : (t.locks.row r.workspaceId).isSome
        · rw [Keyed.insertOrIgnore_of_isSome trivial hfresh]
        · refine (hlock (Keyed.changed_iff.2 ⟨⟨r.workspaceId, applyId, owner, saturatingAdd now (max leaseSeconds 1)⟩,
            ?_, ?_⟩)).elim
          · rw [Keyed.row_insertOrIgnore, Option.not_isSome_iff_eq_none.1 hfresh]
            simp
          · simp [lockClaim]

theorem finishApply_ok {status : ApplyStatus} (hstatus : status ≠ .applying) {r : ApplyReceiptRow}
    (hrow : t.receipts.row applyId = some r) (howner : r.leaseOwner = some owner) :
    finishApply applyId owner status now t = (.ok (),
      { t with
        receipts := t.receipts.update applyId (receiptFinish owner status now)
        locks := t.locks.remove r.workspaceId (fun l => l.applyId == applyId && l.leaseOwner == owner) }) := by
  have hchanged : t.receipts.changed applyId (receiptFinish owner status now) = true :=
    Keyed.changed_iff.2 ⟨r, hrow, by simp [receiptFinish, howner]⟩
  simp [finishApply, hstatus, Calls.transact, finishBody, hrow, hchanged]

theorem finishApply_error {status : ApplyStatus} (h : ∀ r, t.receipts.row applyId = some r →
    r.leaseOwner ≠ some owner) : ∃ e, finishApply applyId owner status now t = (.error e, t) := by
  unfold finishApply
  split
  · exact ⟨_, rfl⟩
  · cases hrow : t.receipts.row applyId with
    | none => exact ⟨.db noRows, by simp [Calls.transact, finishBody, hrow]⟩
    | some r =>
      have hchanged : t.receipts.changed applyId (receiptFinish owner status now) = false := by
        simpa [Keyed.changed, hrow, receiptFinish] using h r hrow
      exact ⟨.db _, by simp [Calls.transact, finishBody, hrow, hchanged]; rfl⟩

theorem updateApplyFile_ok {status : ApplyFileStatus} {error : Option String}
    (herror : error.any (fun e => decide (2048 < e.utf8ByteSize)) = false) {r : ApplyReceiptRow}
    (hrow : t.receipts.row applyId = some r) (howner : r.leaseOwner = some owner)
    (hfile : (t.files.row (applyId, path)).isSome = true) :
    updateApplyFile applyId owner path status error .applying now t = (.ok (),
      { receipts := t.receipts.update applyId (receiptExtend owner now)
        files := t.files.update (applyId, path) (fileOutcome status error now)
        locks := t.locks.update r.workspaceId (lockExtend applyId owner now) }) := by
  have hchanged : t.files.changed (applyId, path) (fileOutcome status error now) = true := by
    obtain ⟨f, hf⟩ := Option.isSome_iff_exists.1 hfile
    exact Keyed.changed_iff.2 ⟨f, hf, rfl⟩
  simp [updateApplyFile, herror, Calls.transact, updateBody, hrow, howner, hchanged]

theorem updateApplyFile_error {status : ApplyFileStatus} {error : Option String} {receiptStatus : ApplyStatus}
    (h : error.any (fun e => decide (2048 < e.utf8ByteSize)) = true ∨
      ∀ r, t.receipts.row applyId = some r → r.leaseOwner ≠ some owner) :
    ∃ e, updateApplyFile applyId owner path status error receiptStatus now t = (.error e, t) := by
  unfold updateApplyFile
  split
  · exact ⟨_, rfl⟩
  · next herror =>
    have h' := h.resolve_left herror
    cases hrow : t.receipts.row applyId with
    | none => exact ⟨.db noRows, by simp [Calls.transact, updateBody, hrow]⟩
    | some r => exact ⟨.db _, by simp [Calls.transact, updateBody, hrow, h' r hrow]; rfl⟩

end Cases

end WorkspaceStore

end Execlaw
