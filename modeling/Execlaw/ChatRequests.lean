import Execlaw.Keyed
import Execlaw.Outbox
/-!
# ChatRequests — idempotency keys of caller-submitted turns (`core/src/chat_requests.rs`)

One row a `(principal, conversation, client_request_id)`, in one of three states.  Every operation but `reserve` is an
`UPDATE` whose `WHERE` names the states it leaves; `reserve` inserts, reads the row back, and gives up on a row that
has been pending for too long.  Two operations read again where their `UPDATE` found nothing; other calls may come in
between, so what they read is an argument.
-/
namespace Execlaw

open Table

def pendingRequestStaleAfterSecs : Int := 300

structure ChatRequestKey where
  principalId : String
  conversationId : String
  clientRequestId : String
deriving DecidableEq

inductive ChatRequestStatus | pending | completed | unknown
deriving DecidableEq

structure ChatRequestRow where
  key : ChatRequestKey
  bodyHash : String
  runId : String
  status : ChatRequestStatus
  responseStatus : Option Int
  responseJson : Option String
  outcomeDetail : Option String
  createdAt : Int
  updatedAt : Int

/-- The table's `CHECK`s. -/
structure ChatRequestRow.Check (r : ChatRequestRow) : Prop where
  bodyHash : r.bodyHash.length = 64
  response : r.status = .completed ↔ r.responseStatus.isSome = true ∧ r.responseJson.isSome = true

def ChatRequestRow.Savable (r : ChatRequestRow) : Prop := ∀ v, r.responseStatus = some v → 200 ≤ v ∧ v ≤ 599

abbrev ChatRequestKeys := Keyed ChatRequestRow.key ChatRequestRow.Check

abbrev ChatRequestChange := Change ChatRequestRow.key ChatRequestRow.Check

inductive ChatRequestState
  | reserved (runId : String)
  | inProgress (runId : String)
  | replay (runId : String) (statusCode : UInt16) (responseJson : String)
  | unknown (runId : String) (detail : Option String)
deriving DecidableEq

structure UnresolvedChatRequest where
  key : ChatRequestKey
  runId : String
  pending : Bool

namespace ChatRequestStore

/-! ## `reserve` -/

/-- `validate_scope` refuses. -/
def malformedScope (k : ChatRequestKey) (bodyHash runId : String) : Bool :=
  (trim k.principalId).isEmpty || 128 < k.principalId.utf8ByteSize ||
    (trim k.conversationId).isEmpty || 128 < k.conversationId.utf8ByteSize ||
    (trim k.clientRequestId).isEmpty || 128 < k.clientRequestId.utf8ByteSize ||
    !k.clientRequestId.toList.all (fun c => 0x21 ≤ c.toNat && c.toNat ≤ 0x7e) ||
    (trim runId).isEmpty || 160 < runId.utf8ByteSize ||
    bodyHash.utf8ByteSize != 64 ||
    !bodyHash.toList.all (fun c => ('0' ≤ c && c ≤ '9') || ('a' ≤ c && c ≤ 'f'))

theorem utf8ByteSize_of_ascii : ∀ (l : List Char), (∀ c ∈ l, c.toNat < 128) →
    (String.ofList l).utf8ByteSize = l.length
  | [], _ => by simp
  | c :: l, h => by
    have ih := utf8ByteSize_of_ascii l (fun d hd => h d (List.mem_cons_of_mem _ hd))
    have hc : c.utf8Size = 1 := by
      rw [Char.utf8Size_eq_one_iff]
      exact UInt32.le_iff_toNat_le.2 (by simpa using Nat.lt_succ_iff.1 (h c List.mem_cons_self))
    rw [String.ofList_cons]
    simp [hc, ih]
    omega

variable {bodyHash runId : String}

theorem length_of_scope {k : ChatRequestKey} (h : malformedScope k bodyHash runId = false) : bodyHash.length = 64 := by
  simp only [malformedScope, Bool.or_eq_false_iff, bne_eq_false_iff_eq, Bool.not_eq_false'] at h
  have hascii : ∀ c ∈ bodyHash.toList, c.toNat < 128 := by
    intro c hc
    have hhex := List.all_eq_true.1 h.2 c hc
    simp only [Bool.or_eq_true, Bool.and_eq_true, decide_eq_true_eq, Char.le_def, UInt32.le_iff_toNat_le] at hhex
    have h9 : '9'.val.toNat = 57 := rfl
    have hf : 'f'.val.toNat = 102 := rfl
    show c.val.toNat < 128
    omega
  have hsize := utf8ByteSize_of_ascii bodyHash.toList hascii
  rw [String.ofList_toList, h.1.2] at hsize
  exact hsize.symm

def newChatRequest (k : ChatRequestKey) (bodyHash runId : String) (now : Int) : ChatRequestRow where
  key := k
  bodyHash := bodyHash
  runId := runId
  status := .pending
  responseStatus := none
  responseJson := none
  outcomeDetail := none
  createdAt := now
  updatedAt := now

theorem newChatRequest_check {k : ChatRequestKey} (now : Int) (h : malformedScope k bodyHash runId = false) :
    (newChatRequest k bodyHash runId now).Check where
  bodyHash := length_of_scope h
  response := by simp [newChatRequest]

/-- A change of rows without a response, which leaves the response columns `NULL`. -/
def changeOpen (takes : ChatRequestRow → Bool) (set : ChatRequestRow → ChatRequestRow)
    (htakes : ∀ r, takes r = true → r.status ≠ .completed ∧ (set r).status ≠ .completed)
    (hset : ∀ r, (set r).key = r.key ∧ (set r).bodyHash = r.bodyHash ∧ (set r).responseStatus = r.responseStatus ∧
      (set r).responseJson = r.responseJson) : ChatRequestChange where
  takes := takes
  set := set
  key_set := fun r => (hset r).1
  keeps_ok := by
    intro r hr h
    obtain ⟨-, hbody, hcode, hjson⟩ := hset r
    obtain ⟨hopen, hopen'⟩ := htakes r h
    refine ⟨by rw [hbody, hr.bodyHash], ?_⟩
    rw [hcode, hjson, ← hr.response]
    simp [hopen, hopen']

def staleDetail : String := "pending request lease expired; outcome requires reconciliation"

/-- The `UPDATE` of `mark_unknown` and of a stale `reserve`. -/
def markUnknownChange (detail : Option String) (now : Int) : ChatRequestChange :=
  changeOpen (fun r => r.status == .pending)
    (fun r => { r with status := .unknown, outcomeDetail := detail, updatedAt := now })
    (by simp +contextual) (fun _ => ⟨rfl, rfl, rfl, rfl⟩)

def replayOf (stored : ChatRequestRow) : Except DbError ChatRequestState :=
  let code := stored.responseStatus.getD 0
  if code < 0 || 65535 < code then .error (.invariant "saved HTTP status is out of range")
  else
    match stored.responseJson with
    | none => .error (.invariant "completed request has no saved response")
    | some json => .ok (.replay stored.runId (UInt16.ofNat code.toNat) json)

/-- What `reserve` makes of the row it reads back. -/
def readReservation (stored : ChatRequestRow) (inserted : Bool) (bodyHash : String) (now : Int)
    (t : ChatRequestKeys) : Except DbError (ChatRequestState × ChatRequestKeys) :=
  if stored.bodyHash ≠ bodyHash then .error (.invariant "client request id was reused with a different body")
  else
    match stored.status with
    | .pending =>
      if inserted then .ok (.reserved stored.runId, t)
      else if pendingRequestStaleAfterSecs ≤ saturatingSub now stored.updatedAt then
        .ok (.unknown stored.runId (some staleDetail),
          t.update stored.key (markUnknownChange (some staleDetail) now))
      else .ok (.inProgress stored.runId, t)
    | .completed => (replayOf stored).map (fun state => (state, t))
    | .unknown => .ok (.unknown stored.runId stored.outcomeDetail, t)

def reserve (k : ChatRequestKey) (bodyHash runId : String) (now : Int) (t : ChatRequestKeys) :
    Except DbError ChatRequestState × ChatRequestKeys :=
  if h : malformedScope k bodyHash runId = false then
    let new := newChatRequest k bodyHash runId now
    let t' := t.insertOrIgnore new (newChatRequest_check now h)
    match t'.row k with
    | none => (.error (.sqlite "Query returned no rows"), t)
    | some stored =>
      match readReservation stored (t.row k).isNone bodyHash now t' with
      | .ok (state, t') => (.ok state, t')
      | .error e => (.error e, t)
  else (.error (.invariant "invalid chat request idempotency scope"), t)

/-! ## The other operations -/

/-- `connection.execute(…)`, and the error where no row was changed. -/
def changeRow (k : ChatRequestKey) (c : ChatRequestChange) (otherwise : Except DbError Unit) (t : ChatRequestKeys) :
    Except DbError Unit × ChatRequestKeys :=
  if t.changed k c then (.ok (), t.update k c) else (otherwise, t)

/-- The `SET` of a completion: both response columns are stored. -/
def completion (takes : ChatRequestRow → Bool) (set : ChatRequestRow → ChatRequestRow) (statusCode : UInt16)
    (responseJson : String) (now : Int) (hset : ∀ r, (set r).key = r.key ∧ (set r).bodyHash = r.bodyHash) :
    ChatRequestChange where
  takes := takes
  set := fun r =>
    { set r with status := .completed, responseStatus := some statusCode.toNat, responseJson := some responseJson,
                 outcomeDetail := none, updatedAt := now }
  key_set := fun r => (hset r).1
  keeps_ok := fun r hr _ => ⟨by rw [(hset r).2, hr.bodyHash], by simp⟩

def unsavable (statusCode : UInt16) (responseJson : String) : Bool :=
  2 * 1024 * 1024 < responseJson.utf8ByteSize || !(200 ≤ statusCode && statusCode ≤ 599)

def completeChange (runId : String) (statusCode : UInt16) (responseJson : String) (now : Int) : ChatRequestChange :=
  completion (fun r => r.status == .pending) (fun r => { r with runId := runId }) statusCode responseJson now
    (fun _ => ⟨rfl, rfl⟩)

def complete (k : ChatRequestKey) (runId : String) (statusCode : UInt16) (responseJson : String) (now : Int)
    (t : ChatRequestKeys) : Except DbError Unit × ChatRequestKeys :=
  if unsavable statusCode responseJson then (.error (.invariant "invalid saved chat response"), t)
  else
    changeRow k (completeChange runId statusCode responseJson now)
      (.error (.invariant "chat request is not pending")) t

def heartbeatChange (now : Int) : ChatRequestChange :=
  changeOpen (fun r => r.status == .pending) (fun r => { r with updatedAt := now }) (by simp +contextual)
    (fun _ => ⟨rfl, rfl, rfl, rfl⟩)

def heartbeat (k : ChatRequestKey) (now : Int) (t : ChatRequestKeys) : Bool × ChatRequestKeys :=
  (t.changed k (heartbeatChange now), t.update k (heartbeatChange now))

def bindExecutionRunChange (reservedRunId executionRunId : String) (now : Int) : ChatRequestChange :=
  changeOpen (fun r => r.status == .pending && r.runId == reservedRunId)
    (fun r => { r with runId := executionRunId, updatedAt := now }) (by simp +contextual)
    (fun _ => ⟨rfl, rfl, rfl, rfl⟩)

/-- The second query of `bind_execution_run`: the run of the pending row. -/
def readBinding (k : ChatRequestKey) (executionRunId : String) (t : ChatRequestKeys) : Except DbError Unit :=
  match t.row k with
  | some r =>
    if r.status ≠ .pending then .error (.sqlite "Query returned no rows")
    else if r.runId = executionRunId then .ok ()
    else .error (.invariant "chat request reservation could not bind execution run")
  | none => .error (.sqlite "Query returned no rows")

/-- `bind_execution_run`; `later` is the table its second query reads. -/
def bindExecutionRun (k : ChatRequestKey) (reservedRunId executionRunId : String) (now : Int)
    (later : ChatRequestKeys) : ChatRequestKeys → Except DbError Unit × ChatRequestKeys :=
  changeRow k (bindExecutionRunChange reservedRunId executionRunId now) (readBinding k executionRunId later)

def reopenUnknownChange (previousRunId executionRunId : String) (now : Int) : ChatRequestChange :=
  changeOpen (fun r => r.runId == previousRunId && r.status == .unknown)
    (fun r => { r with runId := executionRunId, status := .pending, outcomeDetail := none, updatedAt := now })
    (by simp +contextual) (fun _ => ⟨rfl, rfl, rfl, rfl⟩)

def reopenUnknownForRecovery (k : ChatRequestKey) (previousRunId executionRunId : String) (now : Int) :
    ChatRequestKeys → Except DbError Unit × ChatRequestKeys :=
  changeRow k (reopenUnknownChange previousRunId executionRunId now)
    (.error (.invariant "chat request is not an unknown recovery candidate"))

def markUnknown (k : ChatRequestKey) (detail : Option String) (now : Int) (t : ChatRequestKeys) :
    Except DbError Unit × ChatRequestKeys :=
  if detail.any (fun value => 512 < value.utf8ByteSize) then
    (.error (.invariant "outcome detail exceeds 512 bytes"), t)
  else changeRow k (markUnknownChange detail now) (.error (.invariant "chat request is not pending")) t

def completeReconciledChange (request : UnresolvedChatRequest) (statusCode : UInt16) (responseJson : String)
    (now : Int) : ChatRequestChange :=
  completion (fun r => r.runId == request.runId && r.status != .completed) id statusCode responseJson now
    (fun _ => ⟨rfl, rfl⟩)

/-- The second query of `complete_reconciled`: the same response is saved. -/
def readReconciled (request : UnresolvedChatRequest) (statusCode : UInt16) (responseJson : String)
    (t : ChatRequestKeys) : Except DbError Unit :=
  if (t.row request.key).any (fun r => r.status == .completed && r.runId == request.runId &&
      r.responseStatus == some (statusCode.toNat : Int) && r.responseJson == some responseJson) then .ok ()
  else .error (.invariant "chat request changed while its completed run was reconciled")

/-- `complete_reconciled`; `later` is the table its second query reads. -/
def completeReconciled (request : UnresolvedChatRequest) (statusCode : UInt16) (responseJson : String) (now : Int)
    (later t : ChatRequestKeys) : Except DbError Unit × ChatRequestKeys :=
  if unsavable statusCode responseJson then (.error (.invariant "invalid reconciled chat response"), t)
  else
    changeRow request.key (completeReconciledChange request statusCode responseJson now)
      (readReconciled request statusCode responseJson later) t

/-- A call of the store; `later` is what a second query of the call reads. -/
inductive Call
  | reserve (key : ChatRequestKey) (bodyHash runId : String) (now : Int)
  | complete (key : ChatRequestKey) (runId : String) (statusCode : UInt16) (responseJson : String) (now : Int)
  | heartbeat (key : ChatRequestKey) (now : Int)
  | bindExecutionRun (key : ChatRequestKey) (reservedRunId executionRunId : String) (now : Int)
      (later : ChatRequestKeys)
  | reopenUnknownForRecovery (key : ChatRequestKey) (previousRunId executionRunId : String) (now : Int)
  | markUnknown (key : ChatRequestKey) (detail : Option String) (now : Int)
  | completeReconciled (request : UnresolvedChatRequest) (statusCode : UInt16) (responseJson : String) (now : Int)
      (later : ChatRequestKeys)

inductive Reply
  | state (state : ChatRequestState)
  | done
  | refreshed (found : Bool)

def answer {α : Type} (f : α → Reply) : Except DbError α × ChatRequestKeys → Except DbError Reply × ChatRequestKeys
  | (.ok a, t) => (.ok (f a), t)
  | (.error e, t) => (.error e, t)

def exec (t : ChatRequestKeys) : Call → Except DbError Reply × ChatRequestKeys
  | .reserve k bodyHash runId now => answer .state (reserve k bodyHash runId now t)
  | .complete k runId code json now => answer (fun _ => .done) (complete k runId code json now t)
  | .heartbeat k now => (.ok (.refreshed (heartbeat k now t).1), (heartbeat k now t).2)
  | .bindExecutionRun k reserved execution now later =>
    answer (fun _ => .done) (bindExecutionRun k reserved execution now later t)
  | .reopenUnknownForRecovery k previous execution now =>
    answer (fun _ => .done) (reopenUnknownForRecovery k previous execution now t)
  | .markUnknown k detail now => answer (fun _ => .done) (markUnknown k detail now t)
  | .completeReconciled request code json now later =>
    answer (fun _ => .done) (completeReconciled request code json now later t)

def after (t : ChatRequestKeys) (calls : List Call) : ChatRequestKeys := calls.foldl (fun t c => (exec t c).2) t

@[simp] theorem after_nil (t : ChatRequestKeys) : after t [] = t := rfl

@[simp] theorem after_cons (t : ChatRequestKeys) (c : Call) (calls : List Call) :
    after t (c :: calls) = after (exec t c).2 calls := rfl

theorem after_snoc (t : ChatRequestKeys) (calls : List Call) (c : Call) :
    after t (calls ++ [c]) = (exec (after t calls) c).2 := by
  simp [after]

/-- The body hash of a `reserve` of the key whose scope is well formed. -/
def Call.reserves (k : ChatRequestKey) : Call → Option String
  | .reserve k' bodyHash runId _ => if k' = k ∧ malformedScope k bodyHash runId = false then some bodyHash else none
  | _ => none

def Call.key : Call → ChatRequestKey
  | .reserve k _ _ _ | .complete k _ _ _ _ | .heartbeat k _ | .bindExecutionRun k _ _ _ _
  | .reopenUnknownForRecovery k _ _ _ | .markUnknown k _ _ => k
  | .completeReconciled request _ _ _ _ => request.key

def isReserved : Except DbError Reply → Bool
  | .ok (.state (.reserved _)) => true
  | _ => false

/-- The call returns `Reserved` for the key. -/
def returnsReserved (k : ChatRequestKey) (t : ChatRequestKeys) (c : Call) : Bool :=
  decide (c.key = k) && isReserved (exec t c).1

/-- How many calls return `Reserved` for the key. -/
def reservedCount (k : ChatRequestKey) : ChatRequestKeys → List Call → Nat
  | _, [] => 0
  | t, c :: calls => (returnsReserved k t c).toNat + reservedCount k (exec t c).2 calls

/-! ## What one call does to a row -/

/-- **What a call makes of the row of a key**: nothing, the reservation, or a move out of an open state. -/
inductive RowMove (k : ChatRequestKey) (c : Call) : Option ChatRequestRow → Option ChatRequestRow → Prop
  | same (r : Option ChatRequestRow) : RowMove k c r r
  | reserved (bodyHash runId : String) (now : Int) : c.reserves k = some bodyHash →
      RowMove k c none (some (newChatRequest k bodyHash runId now))
  | moved (r r' : ChatRequestRow) : r.status ≠ .completed → r'.bodyHash = r.bodyHash → (r.Savable → r'.Savable) →
      (r.status = .unknown → r'.status = .pending →
        ∃ execution now, c = .reopenUnknownForRecovery k r.runId execution now) → RowMove k c (some r) (some r')

variable {k j : ChatRequestKey}

theorem RowMove.updated {c : Call} {ch : ChatRequestChange} {t : ChatRequestKeys}
    (hset : ∀ r, ch.takes r = true → r.status ≠ .completed ∧ (ch.set r).bodyHash = r.bodyHash)
    (hsaved : ∀ r, r.Savable → (ch.set r).Savable) (hreopen : ∀ r, ch.takes r = true → r.status = .unknown →
      (ch.set r).status = .pending → ∃ execution now, c = .reopenUnknownForRecovery j r.runId execution now) :
    RowMove k c (t.row k) ((t.update j ch).row k) := by
  cases hr : t.row k with
  | none =>
    rw [Keyed.row_update_eq_none hr]
    exact .same _
  | some r =>
    rcases Keyed.row_update_cases (k := j) (c := ch) hr with h | ⟨rfl, htakes, h⟩
    · rw [h]
      exact .same _
    · rw [h]
      exact .moved r _ (hset r htakes).1 (hset r htakes).2 (hsaved r) (hreopen r htakes)

theorem savable_completion {takes : ChatRequestRow → Bool} {set : ChatRequestRow → ChatRequestRow} {code : UInt16}
    {json : String} {now : Int} {hset : ∀ r, (set r).key = r.key ∧ (set r).bodyHash = r.bodyHash} {r : ChatRequestRow}
    (h : ¬ unsavable code json = true) : ((completion takes set code json now hset).set r).Savable := by
  intro v hv
  obtain rfl : (code.toNat : Int) = v := Option.some.inj hv
  simp only [unsavable, Bool.or_eq_true, Bool.not_eq_true', Bool.and_eq_false_iff, decide_eq_false_iff_not, not_or,
    not_not, UInt16.le_iff_toNat_le] at h
  have h200 : (200 : UInt16).toNat = 200 := rfl
  have h599 : (599 : UInt16).toNat = 599 := rfl
  omega

theorem RowMove.changeRow {c : Call} {ch : ChatRequestChange} {otherwise : Except DbError Unit} {t : ChatRequestKeys}
    (h : RowMove k c (t.row k) ((t.update j ch).row k)) :
    RowMove k c (t.row k) ((changeRow j ch otherwise t).2.row k) := by
  unfold ChatRequestStore.changeRow
  split
  · exact h
  · exact .same _

section Reserve

variable {k : ChatRequestKey} {bodyHash runId : String} {now : Int} {t : ChatRequestKeys}

theorem reserve_malformed (h : malformedScope k bodyHash runId ≠ false) :
    reserve k bodyHash runId now t = (.error (.invariant "invalid chat request idempotency scope"), t) := by
  unfold reserve
  rw [dif_neg h]

theorem row_inserted {t : ChatRequestKeys} {j : ChatRequestKey} {bodyHash runId : String} {now : Int}
    (h : (newChatRequest j bodyHash runId now).Check) (k : ChatRequestKey) :
    (t.insertOrIgnore (newChatRequest j bodyHash runId now) h).row k =
      (t.row k).or (if j = k then some (newChatRequest j bodyHash runId now) else none) :=
  Keyed.row_insertOrIgnore h k

theorem readReservation_inserted (t : ChatRequestKeys) :
    readReservation (newChatRequest k bodyHash runId now) true bodyHash now t = .ok (.reserved runId, t) :=
  if_neg (not_not.2 rfl)

theorem reserve_fresh (h : malformedScope k bodyHash runId = false) (hnone : t.row k = none) :
    reserve k bodyHash runId now t = (.ok (.reserved runId),
      t.insertOrIgnore (newChatRequest k bodyHash runId now) (newChatRequest_check now h)) := by
  have hrow : (t.insertOrIgnore (newChatRequest k bodyHash runId now) (newChatRequest_check now h)).row k =
      some (newChatRequest k bodyHash runId now) := by
    rw [row_inserted, hnone, Option.none_or, if_pos rfl]
  unfold reserve
  rw [dif_pos h]
  simp [hrow, hnone, readReservation_inserted]

variable {r : ChatRequestRow}

theorem reserve_stored (h : malformedScope k bodyHash runId = false) (hr : t.row k = some r) :
    reserve k bodyHash runId now t =
      match readReservation r false bodyHash now t with
      | .ok (state, t') => (.ok state, t')
      | .error e => (.error e, t) := by
  have hsame : t.insertOrIgnore (newChatRequest k bodyHash runId now) (newChatRequest_check now h) = t :=
    Keyed.insertOrIgnore_of_isSome _ (by
      show (t.row k).isSome = true
      rw [hr]
      rfl)
  unfold reserve
  rw [dif_pos h]
  simp only [hsame, hr]
  rfl

theorem reserve_other_body (hr : t.row k = some r) (hne : r.bodyHash ≠ bodyHash) :
    ∃ e, reserve k bodyHash runId now t = (.error e, t) := by
  by_cases h : malformedScope k bodyHash runId = false
  · exact ⟨_, by rw [reserve_stored h hr, readReservation, if_pos hne]⟩
  · exact ⟨_, reserve_malformed h⟩

theorem readReservation_cases {state : ChatRequestState} {t' : ChatRequestKeys}
    (h : readReservation r false bodyHash now t = .ok (state, t')) : (∀ runId, state ≠ .reserved runId) ∧
      (t' = t ∨ t' = t.update r.key (markUnknownChange (some staleDetail) now)) := by
  unfold readReservation at h
  split at h
  · cases h
  · split at h
    · split at h
      · next hins => cases hins
      · split at h <;> cases h
        · exact ⟨nofun, .inr rfl⟩
        · exact ⟨nofun, .inl rfl⟩
    · unfold replayOf at h
      dsimp only at h
      split at h
      · cases h
      · split at h
        · cases h
        · cases h
          exact ⟨nofun, .inl rfl⟩
    · cases h
      exact ⟨nofun, .inl rfl⟩

theorem reserve_of_row (bodyHash runId : String) (now : Int) (hr : t.row k = some r) :
    (∀ runId', (reserve k bodyHash runId now t).1 ≠ .ok (.reserved runId')) ∧
      ((reserve k bodyHash runId now t).2 = t ∨
        (reserve k bodyHash runId now t).2 = t.update k (markUnknownChange (some staleDetail) now)) := by
  by_cases h : malformedScope k bodyHash runId = false
  · rw [reserve_stored h hr]
    cases hread : readReservation r false bodyHash now t with
    | error e => exact ⟨nofun, .inl rfl⟩
    | ok p =>
      obtain ⟨state, t'⟩ := p
      obtain ⟨hstate, ht⟩ := readReservation_cases hread
      refine ⟨fun runId' he => hstate runId' (by injection he), ?_⟩
      rw [Keyed.key_of_row hr] at ht
      exact ht
  · rw [reserve_malformed h]
    exact ⟨nofun, .inl rfl⟩

end Reserve

theorem answer_snd {α : Type} (f : α → Reply) (p : Except DbError α × ChatRequestKeys) : (answer f p).2 = p.2 := by
  unfold answer
  split <;> rfl

theorem RowMove.marked {c : Call} (detail : Option String) (now : Int) (t : ChatRequestKeys) :
    RowMove k c (t.row k) ((t.update j (markUnknownChange detail now)).row k) :=
  .updated (by simp +contextual [markUnknownChange, changeOpen]) (fun _ h => h)
    (by simp [markUnknownChange, changeOpen])

theorem exec_row (t : ChatRequestKeys) (c : Call) (k : ChatRequestKey) :
    RowMove k c (t.row k) ((exec t c).2.row k) := by
  cases c with
  | reserve j bodyHash runId now =>
    rw [exec, answer_snd]
    cases hr : t.row j with
    | none =>
      by_cases h : malformedScope j bodyHash runId = false
      · rw [reserve_fresh h hr]
        rw [row_inserted]
        by_cases hk : j = k
        · subst hk
          rw [hr, Option.none_or, if_pos rfl]
          exact .reserved bodyHash runId now (if_pos ⟨rfl, h⟩)
        · rw [if_neg hk, Option.or_none]
          exact .same _
      · rw [reserve_malformed h]
        exact .same _
    | some r =>
      rcases (reserve_of_row bodyHash runId now hr).2 with h | h
      · rw [h]
        exact .same _
      · rw [h]
        exact .marked _ _ _
  | complete j runId code json now =>
    rw [exec, answer_snd, complete]
    split
    · exact .same _
    · next hsave =>
      exact .changeRow (.updated (by simp +contextual [completeChange, completion])
        (fun _ _ => savable_completion hsave) (by simp [completeChange, completion]))
  | heartbeat j now =>
    exact .updated (by simp +contextual [heartbeatChange, changeOpen]) (fun _ h => h)
      (by simp +contextual [heartbeatChange, changeOpen])
  | bindExecutionRun j reserved execution now later =>
    rw [exec, answer_snd]
    exact .changeRow (.updated (by simp +contextual [bindExecutionRunChange, changeOpen]) (fun _ h => h)
      (by simp +contextual [bindExecutionRunChange, changeOpen]))
  | reopenUnknownForRecovery j previous execution now =>
    rw [exec, answer_snd]
    refine .changeRow (.updated (by simp +contextual [reopenUnknownChange, changeOpen]) (fun _ h => h) ?_)
    intro r htakes _ _
    have hrun : r.runId = previous ∧ r.status = .unknown := by
      simpa [reopenUnknownChange, changeOpen] using htakes
    exact ⟨execution, now, by rw [hrun.1]⟩
  | markUnknown j detail now =>
    rw [exec, answer_snd, markUnknown]
    split
    · exact .same _
    · exact .changeRow (.marked _ _ _)
  | completeReconciled request code json now later =>
    rw [exec, answer_snd, completeReconciled]
    split
    · exact .same _
    · next hsave =>
      exact .changeRow (.updated (by simp +contextual [completeReconciledChange, completion])
        (fun _ _ => savable_completion hsave) (by simp [completeReconciledChange, completion]))

section Run

variable {k : ChatRequestKey} {t : ChatRequestKeys} {c : Call}

theorem isReserved_done {α : Type} (p : Except DbError α × ChatRequestKeys) :
    isReserved (answer (fun _ => .done) p).1 = false := by
  rcases p with ⟨e | a, t⟩ <;> rfl

theorem isReserved_state {p : Except DbError ChatRequestState × ChatRequestKeys} :
    isReserved (answer .state p).1 = true ↔ ∃ runId, p.1 = .ok (.reserved runId) := by
  rcases p with ⟨e | (_ | _ | _ | _), t⟩ <;> simp [answer, isReserved]

theorem returnsReserved_iff : returnsReserved k t c = true ↔ t.row k = none ∧ (c.reserves k).isSome = true := by
  unfold returnsReserved
  rw [Bool.and_eq_true, decide_eq_true_eq]
  cases c with
  | reserve j bodyHash runId now =>
    rw [exec, isReserved_state]
    by_cases hk : j = k
    · subst hk
      by_cases h : malformedScope j bodyHash runId = false
      · cases hr : t.row j with
        | none => simp [Call.key, Call.reserves, reserve_fresh h hr, h]
        | some r => simp [(reserve_of_row bodyHash runId now hr).1]
      · simp [Call.reserves, reserve_malformed h, h]
    · simp [Call.key, Call.reserves, hk]
  | heartbeat => simp [exec, isReserved, Call.reserves]
  | _ => simp [exec, isReserved_done, Call.reserves]

variable {r : ChatRequestRow}

theorem row_kept (hr : t.row k = some r) (calls : List Call) :
    ∃ r', (after t calls).row k = some r' ∧ r'.bodyHash = r.bodyHash := by
  induction calls generalizing t r with
  | nil => exact ⟨r, hr, rfl⟩
  | cons c calls ih =>
    have hmove := exec_row t c k
    rw [hr] at hmove
    obtain ⟨r₁, hr₁, hbody⟩ : ∃ r₁, (exec t c).2.row k = some r₁ ∧ r₁.bodyHash = r.bodyHash := by
      generalize (exec t c).2.row k = after at hmove
      cases hmove with
      | same => exact ⟨r, rfl, rfl⟩
      | moved _ r' _ hbody _ _ => exact ⟨r', rfl, hbody⟩
    obtain ⟨r₂, hr₂, hbody₂⟩ := ih hr₁
    exact ⟨r₂, hr₂, hbody₂.trans hbody⟩

theorem completed_row (hr : t.row k = some r) (hst : r.status = .completed) (calls : List Call) :
    (after t calls).row k = some r := by
  induction calls generalizing t with
  | nil => exact hr
  | cons c calls ih =>
    refine ih ?_
    have hmove := exec_row t c k
    rw [hr] at hmove
    generalize (exec t c).2.row k = after at hmove
    cases hmove with
    | same => rfl
    | moved _ _ hopen _ _ _ => exact absurd hst hopen

theorem savable_kept (h : ∀ r, t.row k = some r → r.Savable) (calls : List Call) (hr : (after t calls).row k = some r) :
    r.Savable := by
  induction calls generalizing t with
  | nil => exact h r hr
  | cons c calls ih =>
    refine ih (fun r' hr' => ?_) hr
    have hmove := exec_row t c k
    rw [hr'] at hmove
    generalize t.row k = before at hmove h
    cases hmove with
    | same => exact h r' rfl
    | reserved => exact nofun
    | moved q _ _ _ hsaved _ => exact hsaved (h q rfl)

theorem replayOf_completed (hcheck : r.Check) (hst : r.status = .completed) (hsaved : r.Savable) :
    ∃ code json, replayOf r = .ok (.replay r.runId code json) := by
  obtain ⟨hcode, hjson⟩ := hcheck.response.1 hst
  obtain ⟨v, hv⟩ := Option.isSome_iff_exists.1 hcode
  obtain ⟨json, hjson⟩ := Option.isSome_iff_exists.1 hjson
  obtain ⟨hlow, hhigh⟩ := hsaved v hv
  refine ⟨UInt16.ofNat v.toNat, json, ?_⟩
  have hrange : ¬ ((decide (v < 0) || decide (65535 < v)) = true) := by
    simp
    omega
  simp only [replayOf, hv, hjson, Option.getD_some]
  rw [if_neg hrange]

theorem reserve_completed {state : ChatRequestState} {runId : String} {now : Int} (hr : t.row k = some r)
    (hst : r.status = .completed) (hreplay : replayOf r = .ok state) (h : malformedScope k r.bodyHash runId = false) :
    reserve k r.bodyHash runId now t = (.ok state, t) := by
  rw [reserve_stored h hr, readReservation, if_neg (not_not.2 rfl), hst, hreplay]
  rfl

/-- The body hash of the first `reserve` of the key whose scope is well formed. -/
def firstBody (k : ChatRequestKey) (calls : List Call) : Option String := calls.findSome? (Call.reserves k)

theorem row_exec_of_none (hr : t.row k = none) : ((exec t c).2.row k).map ChatRequestRow.bodyHash = c.reserves k := by
  have hmove := exec_row t c k
  rw [hr] at hmove
  cases hc : c.reserves k with
  | none =>
    generalize (exec t c).2.row k = after at hmove
    cases hmove with
    | same => rfl
    | reserved _ _ _ h => rw [hc] at h; cases h
  | some bodyHash =>
    cases c with
    | reserve j body runId now =>
      simp only [Call.reserves] at hc
      split at hc
      · next h =>
        obtain ⟨rfl, hscope⟩ := h
        rw [exec, answer_snd, reserve_fresh hscope hr]
        rw [row_inserted, hr, Option.none_or, if_pos rfl]
        exact hc
      · cases hc
    | _ => cases hc

theorem body_after (hr : t.row k = none) (calls : List Call) :
    ((after t calls).row k).map ChatRequestRow.bodyHash = firstBody k calls := by
  induction calls generalizing t with
  | nil => simp [hr, firstBody]
  | cons c calls ih =>
    have hstep := row_exec_of_none (c := c) hr
    rw [after_cons, firstBody, List.findSome?_cons]
    cases hc : c.reserves k with
    | none =>
      rw [hc, Option.map_eq_none_iff] at hstep
      exact ih hstep
    | some bodyHash =>
      rw [hc, Option.map_eq_some_iff] at hstep
      obtain ⟨r, hr', hbody⟩ := hstep
      obtain ⟨r', hr'', hbody'⟩ := row_kept hr' calls
      simp [hr'', hbody', hbody]

theorem reservedCount_of_row (hr : t.row k = some r) (calls : List Call) : reservedCount k t calls = 0 := by
  induction calls generalizing t r with
  | nil => rfl
  | cons c calls ih =>
    have hno : returnsReserved k t c = false := by
      rw [← Bool.not_eq_true, returnsReserved_iff, hr]
      exact fun h => nomatch h.1
    obtain ⟨r', hr', -⟩ := row_kept hr [c]
    rw [reservedCount, hno, ih (t := (exec t c).2) hr']
    rfl

theorem reservedCount_eq (hr : t.row k = none) (calls : List Call) :
    reservedCount k t calls = if (firstBody k calls).isSome then 1 else 0 := by
  induction calls generalizing t with
  | nil => rfl
  | cons c calls ih =>
    have hstep := row_exec_of_none (c := c) hr
    have hiff : returnsReserved k t c = (c.reserves k).isSome := by
      rw [Bool.eq_iff_iff, returnsReserved_iff]
      simp [hr]
    rw [reservedCount, hiff, firstBody, List.findSome?_cons]
    cases hc : c.reserves k with
    | none =>
      rw [hc, Option.map_eq_none_iff] at hstep
      simp only [Option.isSome_none, Bool.toNat_false, Nat.zero_add]
      exact ih hstep
    | some bodyHash =>
      rw [hc, Option.map_eq_some_iff] at hstep
      obtain ⟨r, hr', -⟩ := hstep
      simp [reservedCount_of_row hr' calls]

end Run

theorem after_append (t : ChatRequestKeys) (calls later : List Call) :
    after t (calls ++ later) = after (after t calls) later := List.foldl_append

/-- **A key stands for one execution.**  Of all calls in any order, one returns `Reserved`: the first well-formed
`reserve`.  Another body is refused and changes nothing.  A completed row is final, and every well-formed `reserve` of
its body replays one response.  An unknown row is pending again only through `reopen_unknown_for_recovery` of the run
it stores. -/
theorem one_execution_per_key (k : ChatRequestKey) :
    (∀ calls, reservedCount k .empty calls = if (firstBody k calls).isSome then 1 else 0) ∧
    (∀ calls body bodyHash runId now, firstBody k calls = some body → bodyHash ≠ body →
      ∃ e, reserve k bodyHash runId now (after .empty calls) = (.error e, after .empty calls)) ∧
    (∀ calls r, (after .empty calls).row k = some r → r.status = .completed →
      firstBody k calls = some r.bodyHash ∧ ∃ code json, ∀ later, (after .empty (calls ++ later)).row k = some r ∧
        ∀ runId now, malformedScope k r.bodyHash runId = false →
          reserve k r.bodyHash runId now (after .empty (calls ++ later)) =
            (.ok (.replay r.runId code json), after .empty (calls ++ later))) ∧
    ∀ calls c r r', (after .empty calls).row k = some r → r.status = .unknown →
      (after .empty (calls ++ [c])).row k = some r' → r'.status = .pending →
      ∃ execution now, c = .reopenUnknownForRecovery k r.runId execution now := by
  have hempty : (Keyed.empty : ChatRequestKeys).row k = none := rfl
  refine ⟨reservedCount_eq hempty, ?_, ?_, ?_⟩
  · intro calls body bodyHash runId now hbody hne
    rw [← body_after hempty, Option.map_eq_some_iff] at hbody
    obtain ⟨r, hr, rfl⟩ := hbody
    exact reserve_other_body hr hne.symm
  · intro calls r hr hst
    have hbody := body_after hempty calls
    rw [hr] at hbody
    have hsaved : r.Savable := savable_kept (t := .empty) (k := k) (by simp) calls hr
    obtain ⟨code, json, hreplay⟩ := replayOf_completed (Keyed.ok_of_row hr) hst hsaved
    refine ⟨hbody.symm, code, json, fun later => ?_⟩
    have hlater : (after .empty (calls ++ later)).row k = some r := by
      rw [after_append]
      exact completed_row hr hst later
    exact ⟨hlater, fun runId now hscope => reserve_completed hlater hst hreplay hscope⟩
  · intro calls c r r' hr hunknown hr' hpending
    have hmove := exec_row (after .empty calls) c k
    rw [← after_snoc, hr, hr'] at hmove
    cases hmove with
    | same => rw [hunknown] at hpending; cases hpending
    | moved _ _ _ _ _ hreopen => exact hreopen hunknown hpending

def sampleRequestKey : ChatRequestKey := ⟨"controller", "thread-a", "req-1"⟩

def sampleBodyHash : String := "aaaaaaaaaaaaaaaaaaaaaaaaaaaaaaaaaaaaaaaaaaaaaaaaaaaaaaaaaaaaaaaa"

def sampleTurn : List Call :=
  [.reserve sampleRequestKey sampleBodyHash "run-a" 10, .complete sampleRequestKey "run-a" 200 "ok" 12]

/-- **A retry without a run id is refused**, though its body is the completed one. -/
theorem completed_retry_refused :
    ((after .empty sampleTurn).row sampleRequestKey).map (fun r => (r.status, r.bodyHash)) =
      some (.completed, sampleBodyHash) ∧
    (reserve sampleRequestKey sampleBodyHash "" 13 (after .empty sampleTurn)).1 =
      .error (.invariant "invalid chat request idempotency scope") := by
  decide +kernel

end ChatRequestStore
end Execlaw
