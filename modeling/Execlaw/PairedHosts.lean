import Execlaw.Calls
import Execlaw.Keyed
import Execlaw.Moments
import Execlaw.Outbox
import Mathlib.Data.String.Basic
/-!
# PairedHosts — delegation between paired operator hosts (`core/src/paired_hosts.rs`)

A peer is paired with a key and with ceilings on capabilities and data labels; a delegated task is a row with a status
and the artifacts of its result.  Each store call is a program of its database statements.  JSON, URLs, SHA-256 and
Ed25519 are the libraries'; the columns of string lists and of artifacts hold the lists their texts stand for.
-/
namespace Execlaw

open Table Interleave

def maxSignedEnvelopeBytes : Nat := 256 * 1024

def maxArtifactSizeBytes : Nat := 64 * 1024 * 1024

inductive PairedHostError
  | db (error : DbError)
  | invalid (msg : String)
  | unpaired (peerId : String)
  | invalidSignature
  | taskNotFound (taskId : String)
  | invalidTransition (msg : String)
  | controllerRequired
deriving DecidableEq

inductive DelegatedHostTaskStatus | pending | accepted | running | completed | failed | cancelled
deriving DecidableEq

namespace DelegatedHostTaskStatus

def asStr : DelegatedHostTaskStatus → String
  | .pending => "pending"
  | .accepted => "accepted"
  | .running => "running"
  | .completed => "completed"
  | .failed => "failed"
  | .cancelled => "cancelled"

def active : DelegatedHostTaskStatus → Bool
  | .pending | .accepted | .running => true
  | .completed | .failed | .cancelled => false

/-- The transitions of `transition_task`. -/
def allows : DelegatedHostTaskStatus → DelegatedHostTaskStatus → Bool
  | .pending, .accepted | .pending, .cancelled => true
  | .accepted, .running | .accepted, .cancelled => true
  | .running, .cancelled => true
  | _, _ => false

end DelegatedHostTaskStatus

structure DelegatedHostArtifact where
  artifactId : String
  kind : String
  mediaType : String
  sha256 : String
  sizeBytes : Nat
  dataLabels : List String

structure DelegatedHostTask (V : Type) where
  taskId : String
  peerId : String
  task : V
  effectiveCapabilities : List String
  effectiveDataLabels : List String
  status : DelegatedHostTaskStatus
  artifacts : List DelegatedHostArtifact
  createdAt : Int
  updatedAt : Int

structure SignedTaskEnvelope (V : Type) where
  taskId : String
  task : V
  requestedCapabilities : List String
  requestedDataLabels : List String

structure SignedDelegationEnvelope where
  peerEndpoint : String
  payload : List UInt8
  signatureHex : String

structure SignedTaskResult where
  taskId : String
  outcome : String
  artifacts : List DelegatedHostArtifact

structure PairOperatorHostRequest where
  peerId : String
  endpoint : String
  inferenceEndpoint : String
  publicKeyHex : String
  allowedCapabilities : List String
  allowedDataLabels : List String
  actorTrust : String
  actor : String
  now : Int

structure IssueDelegatedHostTask (V SK : Type) where
  peerId : String
  taskId : String
  task : V
  requestedCapabilities : List String
  requestedDataLabels : List String
  localIdentity : SK
  now : Int

structure PairedHostRow where
  peerId : String
  endpoint : String
  inferenceEndpoint : String
  publicKeyHex : String
  keyFingerprintSha256 : String
  allowedCapabilities : List String
  allowedDataLabels : List String
  pairedBy : String
  pairedAt : Int
  active : Bool
deriving DecidableEq

namespace PairedHostRow

/-- The checks of `paired_operator_hosts`. -/
def Ok (r : PairedHostRow) : Prop := r.publicKeyHex.length = 64 ∧ r.keyFingerprintSha256.length = 64

instance (r : PairedHostRow) : Decidable r.Ok := inferInstanceAs (Decidable (_ ∧ _))

end PairedHostRow

/-- A row of `delegated_host_tasks`; `authority` and `dataLabels` are the effective lists. -/
structure DelegatedTaskRow where
  taskId : String
  peerId : String
  taskJson : String
  authority : List String
  dataLabels : List String
  status : DelegatedHostTaskStatus
  artifacts : List DelegatedHostArtifact
  createdAt : Int
  updatedAt : Int

structure PairedHosts where
  peers : Keyed PairedHostRow.peerId PairedHostRow.Ok
  tasks : Keyed DelegatedTaskRow.taskId (fun _ => True)

def PairedHosts.empty : PairedHosts := ⟨.empty, .empty⟩

/-! ## The libraries -/

structure ParsedUrl where
  scheme : String
  username : String
  password : Option String
  query : Option String
  fragment : Option String
  hostStr : Option String

inductive IpAddr
  | v4 (a b c d : Nat)
  | v6 (segments : List Nat)

/-- What the module takes from its libraries.  A signature has 64 bytes and verifies under the signer's key; an envelope
that is read back has the identifier and the lists it was written with. -/
structure HostLib (V SK PK : Type) where
  taskToString : V → Except String String
  taskFromStr : String → Except String V
  isNull : V → Bool
  envelopeToVec : SignedTaskEnvelope V → Except String (List UInt8)
  envelopeFromSlice : List UInt8 → Except String (SignedTaskEnvelope V)
  resultFromSlice : List UInt8 → Except String SignedTaskResult
  parseUrl : String → Except String ParsedUrl
  parseIp : String → Option IpAddr
  sha256Hex : List UInt8 → String
  keyFromBytes : List UInt8 → Option PK
  verify : PK → List UInt8 → List UInt8 → Bool
  sign : SK → List UInt8 → List UInt8
  verifyingKey : SK → PK
  sign_length : ∀ sk m, (sign sk m).length = 64
  sign_verifies : ∀ sk m, verify (verifyingKey sk) m (sign sk m) = true
  envelope_reads : ∀ e bytes, envelopeToVec e = .ok bytes →
    (∃ msg, envelopeFromSlice bytes = .error msg) ∨ ∃ v, envelopeFromSlice bytes = .ok { e with task := v }

/-! ## Hexadecimal -/

def hexDigits : List Char :=
  ['0', '1', '2', '3', '4', '5', '6', '7', '8', '9', 'a', 'b', 'c', 'd', 'e', 'f']

def hexChar (n : Nat) : Char := hexDigits.getD n '0'

def hexEncode (bytes : List UInt8) : String :=
  String.ofList (bytes.flatMap fun b => [hexChar (b.toNat / 16), hexChar (b.toNat % 16)])

def hexValue (c : Char) : Option Nat := hexDigits.findIdx? (· == c.toLower)

def hexDecode : List Char → Option (List UInt8)
  | [] => some []
  | [_] => none
  | a :: b :: cs =>
    match hexValue a, hexValue b, hexDecode cs with
    | some x, some y, some bytes => some (UInt8.ofNat (16 * x + y) :: bytes)
    | _, _, _ => none

theorem hexValue_hexChar : ∀ n < 16, hexValue (hexChar n) = some n := by decide

theorem hexDecode_hexEncode (bytes : List UInt8) : hexDecode (hexEncode bytes).toList = some bytes := by
  rw [hexEncode, String.toList_ofList]
  induction bytes with
  | nil => rfl
  | cons b bytes ih =>
    have hb := b.toNat_lt
    have hhigh := hexValue_hexChar (b.toNat / 16) (by omega)
    have hlow := hexValue_hexChar (b.toNat % 16) (by omega)
    have hbyte : 16 * (b.toNat / 16) + b.toNat % 16 = b.toNat := by omega
    simp only [List.flatMap_cons, List.cons_append, List.nil_append, hexDecode, hhigh, hlow, ih, hbyte,
      UInt8.ofNat_toNat]

namespace PairedHostStore

def reject (condition : Prop) [Decidable condition] (error : PairedHostError) : Except PairedHostError Unit :=
  if condition then .error error else .ok ()

def decodeHex (n : Nat) (value field : String) : Except PairedHostError (List UInt8) :=
  match hexDecode value.toList with
  | none => .error (.invalid s!"{field} must be hex")
  | some bytes => if bytes.length = n then .ok bytes else .error (.invalid s!"{field} has the wrong length")

def validateId (value field : String) (max : Nat) : Except PairedHostError Unit :=
  if (trim value).isEmpty || max < value.utf8ByteSize ||
      value.toList.any (fun c => !(c.isAlphanum || ['-', '_', '.', ':'].contains c)) then
    .error (.invalid s!"{field} is invalid")
  else .ok ()

def dedup : List String → List String
  | a :: b :: l => if a = b then dedup (b :: l) else a :: dedup (b :: l)
  | l => l

def normalizeAllowlist (values : List String) (field : String) : Except PairedHostError (List String) :=
  if 128 < values.length then .error (.invalid s!"too many {field} entries")
  else if (values.map trim).any (fun value => value.isEmpty || 128 < value.utf8ByteSize) then
    .error (.invalid s!"{field} entry is invalid")
  else .ok (dedup (orderBy id (values.map trim)))

/-- `is_local_ipv4`: private, loopback, link-local, or shared address space. -/
def isLocalIpv4 (a b : Nat) : Bool :=
  (a == 10 || (a == 172 && 16 ≤ b && b ≤ 31) || (a == 192 && b == 168)) || a == 127 || (a == 169 && b == 254) ||
    (a == 100 && 64 ≤ b && b ≤ 127)

def isLocalIpv6 (segments : List Nat) : Bool :=
  segments == [0, 0, 0, 0, 0, 0, 0, 1] || segments.headD 0 &&& 0xfe00 == 0xfc00 ||
    segments.headD 0 &&& 0xffc0 == 0xfe80

section Lib

variable {V SK PK : Type} (lib : HostLib V SK PK)

def isLocalHost (host : String) : Bool :=
  match lib.parseIp host with
  | some (.v4 a b _ _) => isLocalIpv4 a b
  | some (.v6 segments) => isLocalIpv6 segments
  | none => host == "localhost" || ".localhost".toList.isSuffixOf host.toList

def validateLocalEndpoint (value : String) : Except PairedHostError Unit :=
  match lib.parseUrl value with
  | .error e => .error (.invalid s!"endpoint URL: {e}")
  | .ok url =>
    if url.scheme ≠ "https" ∨ url.username ≠ "" ∨ url.password.isSome ∨ url.query.isSome ∨ url.fragment.isSome then
      .error (.invalid "paired host and inference URLs must use HTTPS without embedded credentials")
    else
      match url.hostStr with
      | none => .error (.invalid "endpoint URL requires a host")
      | some host =>
        if isLocalHost lib (String.ofList (host.toList.map Char.toLower)) then .ok ()
        else .error (.invalid
          "paired host and inference endpoints must resolve only to operator local/VPN addresses")

def verifySignature (publicKeyHex : String) (payload : List UInt8) (signatureHex : String) :
    Except PairedHostError Unit :=
  match decodeHex 32 publicKeyHex "peer public key" with
  | .error e => .error e
  | .ok keyBytes =>
    match lib.keyFromBytes keyBytes with
    | none => .error (.invalid "stored peer key is invalid")
    | some key =>
      match decodeHex 64 signatureHex "peer signature" with
      | .error e => .error e
      | .ok signature => if lib.verify key payload signature then .ok () else .error .invalidSignature

end Lib

def artifactMessage : String := "remote artifact has an unsupported type, size, digest, or data label"

def isHexDigit (c : Char) : Bool := c.isDigit || ('a' ≤ c && c ≤ 'f') || ('A' ≤ c && c ≤ 'F')

def validateArtifact (artifact : DelegatedHostArtifact) (allowedLabels : List String) : Except PairedHostError Unit :=
  match validateId artifact.artifactId "artifact id" 128 with
  | .error e => .error e
  | .ok () =>
    if !(["json", "text", "patch", "opaque"].contains artifact.kind) || artifact.mediaType.isEmpty ||
        128 < artifact.mediaType.utf8ByteSize || maxArtifactSizeBytes < artifact.sizeBytes ||
        artifact.sha256.utf8ByteSize ≠ 64 || !artifact.sha256.toList.all isHexDigit ||
        artifact.dataLabels.any (fun label => !allowedLabels.contains label) then
      .error (.invalid artifactMessage)
    else .ok ()

def validateArtifacts (allowedLabels : List String) : List DelegatedHostArtifact → Except PairedHostError Unit
  | [] => .ok ()
  | artifact :: artifacts =>
    match validateArtifact artifact allowedLabels with
    | .error e => .error e
    | .ok () => validateArtifacts allowedLabels artifacts

/-! ## Statements -/

abbrev HostChange := Change PairedHostRow.peerId PairedHostRow.Ok
abbrev TaskChange := Change DelegatedTaskRow.taskId (fun _ => True)

def pairChange (row : PairedHostRow) (h : row.Ok) : HostChange where
  takes := fun _ => true
  set := fun r => { row with peerId := r.peerId }
  key_set := fun _ => rfl
  keeps_ok := fun _ _ _ => h

/-- `COUNT(*)` of the peer's active tasks. -/
def activeTasks (peerId : String) (t : PairedHosts) : Nat :=
  t.tasks.rows.countP (fun r => r.peerId == peerId && r.status.active)

def pairTx (row : PairedHostRow) (t : PairedHosts) : Except DbError (Unit × PairedHosts) :=
  if ((t.peers.row row.peerId).any fun r => r.publicKeyHex ≠ row.publicKeyHex) && 0 < activeTasks row.peerId t then
    .error (.invariant "peer key cannot change while delegated tasks are active")
  else if h : row.Ok then .ok ((), { t with peers := t.peers.upsert row h (pairChange row h) })
  else .error (.sqlite "CHECK constraint failed: paired_operator_hosts")

def revokeChange (now : Int) : HostChange where
  takes := fun r => r.active
  set := fun r => { r with active := false, pairedAt := now }
  key_set := fun _ => rfl
  keeps_ok := fun _ h _ => h

/-- `active_peer_policy`: the key and the two ceilings. -/
def activePeerPolicy (peerId : String) (t : PairedHosts) :
    Except PairedHostError (String × List String × List String) :=
  match (t.peers.row peerId).filter (fun r => r.active) with
  | none => .error (.unpaired peerId)
  | some r => .ok (r.publicKeyHex, r.allowedCapabilities, r.allowedDataLabels)

def newTask (taskId peerId taskJson : String) (authority dataLabels : List String) (now : Int) : DelegatedTaskRow where
  taskId := taskId
  peerId := peerId
  taskJson := taskJson
  authority := authority
  dataLabels := dataLabels
  status := .pending
  artifacts := []
  createdAt := now
  updatedAt := now

def insertTask (row : DelegatedTaskRow) (t : PairedHosts) : Except DbError (Unit × PairedHosts) :=
  if (t.peers.row row.peerId).isNone then .error (.sqlite "FOREIGN KEY constraint failed")
  else
    match t.tasks.insert? row trivial with
    | none => .error (.sqlite "UNIQUE constraint failed: delegated_host_tasks.task_id")
    | some tasks => .ok ((), { t with tasks := tasks })

def reusedMessage : String := "task id was already used for a different or terminal delegation"

/-- The transaction of `issue_signed_task`: a repeated request keeps its row. -/
def issueTx (row : DelegatedTaskRow) (t : PairedHosts) : Except DbError (Unit × PairedHosts) :=
  match t.tasks.row row.taskId with
  | none => insertTask row t
  | some r =>
    if r.peerId ≠ row.peerId ∨ r.taskJson ≠ row.taskJson ∨ r.authority ≠ row.authority ∨
        r.dataLabels ≠ row.dataLabels ∨ r.status.active = false then
      .error (.invariant reusedMessage)
    else .ok ((), t)

/-- The unguarded `UPDATE` of `transition_task`. -/
def statusChange (next : DelegatedHostTaskStatus) (now : Int) : TaskChange where
  takes := fun _ => true
  set := fun r => { r with status := next, updatedAt := now }
  key_set := fun _ => rfl
  keeps_ok := fun _ h _ => h

def resultChange (peerId : String) (next : DelegatedHostTaskStatus) (artifacts : List DelegatedHostArtifact)
    (now : Int) : TaskChange where
  takes := fun r => r.peerId == peerId && r.status.active
  set := fun r => { r with status := next, artifacts := artifacts, updatedAt := now }
  key_set := fun _ => rfl
  keeps_ok := fun _ h _ => h

def resultTx (taskId peerId : String) (next : DelegatedHostTaskStatus) (artifacts : List DelegatedHostArtifact)
    (now : Int) (t : PairedHosts) : Except DbError (Unit × PairedHosts) :=
  if t.tasks.changed taskId (resultChange peerId next artifacts now) then
    .ok ((), { t with tasks := t.tasks.update taskId (resultChange peerId next artifacts now) })
  else .error (.invariant "task result raced with another state transition")

section Store

variable {V SK PK : Type} (lib : HostLib V SK PK)

/-- `task`: the row with its task read back. -/
def task (taskId : String) (t : PairedHosts) : Except PairedHostError (Option (DelegatedHostTask V)) :=
  match t.tasks.row taskId with
  | none => .ok none
  | some r =>
    match lib.taskFromStr r.taskJson with
    | .error e => .error (.invalid e)
    | .ok v =>
      .ok (some ⟨taskId, r.peerId, v, r.authority, r.dataLabels, r.status, r.artifacts, r.createdAt, r.updatedAt⟩)

/-- The checks of `pair`, and the row it stores. -/
def pairRow (request : PairOperatorHostRequest) : Except PairedHostError PairedHostRow := do
  reject (request.actorTrust ≠ "Controller") .controllerRequired
  validateId request.peerId "peer id" 128
  validateId request.actor "actor" 128
  validateLocalEndpoint lib request.endpoint
  validateLocalEndpoint lib request.inferenceEndpoint
  let publicKey ← decodeHex 32 request.publicKeyHex "peer public key"
  reject ((lib.keyFromBytes publicKey).isNone = true) (.invalid "peer public key is invalid")
  let capabilities ← normalizeAllowlist request.allowedCapabilities "capability"
  let labels ← normalizeAllowlist request.allowedDataLabels "data label"
  .ok {
    peerId := request.peerId
    endpoint := request.endpoint
    inferenceEndpoint := request.inferenceEndpoint
    publicKeyHex := String.ofList (request.publicKeyHex.toList.map Char.toLower)
    keyFingerprintSha256 := lib.sha256Hex publicKey
    allowedCapabilities := capabilities
    allowedDataLabels := labels
    pairedBy := request.actor
    pairedAt := request.now
    active := true }

/-- `pair`; the answer is the row without its key. -/
def pair (request : PairOperatorHostRequest) : Prog PairedHosts (Except PairedHostError PairedHostRow) :=
  match pairRow lib request with
  | .error e => pure (.error e)
  | .ok row => do
    match ← Prog.atomic (Calls.transact (pairTx row)) with
    | .error e => pure (.error (.db e))
    | .ok () => pure (.ok row)

def revokePeer (peerId actorTrust : String) (now : Int) : Prog PairedHosts (Except PairedHostError Bool) :=
  if actorTrust ≠ "Controller" then pure (.error .controllerRequired)
  else do
    let changed ← Prog.atomic fun t =>
      (t.peers.changed peerId (revokeChange now), { t with peers := t.peers.update peerId (revokeChange now) })
    pure (.ok changed)

/-- The checks of `issue_signed_task` before it reads the policy: the text of the task. -/
def issueChecks (request : IssueDelegatedHostTask V SK) : Except PairedHostError String := do
  validateId request.taskId "task id" 128
  reject (lib.isNull request.task = true) (.invalid "task payload must not be null")
  match lib.taskToString request.task with
  | .error e => .error (.invalid e)
  | .ok taskJson =>
    if maxSignedEnvelopeBytes < taskJson.utf8ByteSize then .error (.invalid "outbound task exceeds 256 KiB")
    else .ok taskJson

def outbound (request : IssueDelegatedHostTask V SK) (taskJson : String) (capabilityCeiling labelCeiling : List String) :
    Except PairedHostError (DelegatedTaskRow × List UInt8) := do
  let requestedCapabilities ← normalizeAllowlist request.requestedCapabilities "capability"
  let requestedDataLabels ← normalizeAllowlist request.requestedDataLabels "data label"
  let effectiveCapabilities := requestedCapabilities.filter (fun v => capabilityCeiling.contains v)
  let effectiveDataLabels := requestedDataLabels.filter (fun v => labelCeiling.contains v)
  match lib.envelopeToVec ⟨request.taskId, request.task, effectiveCapabilities, effectiveDataLabels⟩ with
  | .error e => .error (.invalid e)
  | .ok payload =>
    .ok (newTask request.taskId request.peerId taskJson effectiveCapabilities effectiveDataLabels request.now, payload)

/-- The end of `issue_signed_task`, with the peer it reads again. -/
def issued (peerId : String) (payload : List UInt8) (signatureHex : String) (peer : Option PairedHostRow) :
    Except PairedHostError SignedDelegationEnvelope :=
  match peer with
  | none => .error (.unpaired peerId)
  | some peer => if peer.active then .ok ⟨peer.endpoint, payload, signatureHex⟩ else .error (.unpaired peerId)

def issueSignedTask (request : IssueDelegatedHostTask V SK) :
    Prog PairedHosts (Except PairedHostError SignedDelegationEnvelope) :=
  match issueChecks lib request with
  | .error e => pure (.error e)
  | .ok taskJson => do
    match ← Prog.read (activePeerPolicy request.peerId) with
    | .error e => pure (.error e)
    | .ok (_, capabilityCeiling, labelCeiling) =>
      match outbound lib request taskJson capabilityCeiling labelCeiling with
      | .error e => pure (.error e)
      | .ok (row, payload) => do
        match ← Prog.atomic (Calls.transact (issueTx row)) with
        | .error e => pure (.error (.db e))
        | .ok () => do
          let peer ← Prog.read (fun t => t.peers.row request.peerId)
          pure (issued request.peerId payload (hexEncode (lib.sign request.localIdentity payload)) peer)

/-- The checks of `receive_signed_task` under the policy: the task as it is stored, and its text. -/
def inbound (peerId : String) (payload : List UInt8) (signatureHex : String) (now : Int)
    (policy : String × List String × List String) : Except PairedHostError (DelegatedTaskRow × V) := do
  verifySignature lib policy.1 payload signatureHex
  match lib.envelopeFromSlice payload with
  | .error e => .error (.invalid s!"signed task envelope: {e}")
  | .ok envelope =>
    validateId envelope.taskId "task id" 128
    reject (lib.isNull envelope.task = true) (.invalid "task payload must not be null")
    let requestedCapabilities ← normalizeAllowlist envelope.requestedCapabilities "capability"
    let requestedLabels ← normalizeAllowlist envelope.requestedDataLabels "data label"
    match lib.taskToString envelope.task with
    | .error e => .error (.invalid e)
    | .ok taskJson =>
      .ok (newTask envelope.taskId peerId taskJson (requestedCapabilities.filter (fun v => policy.2.1.contains v))
        (requestedLabels.filter (fun v => policy.2.2.contains v)) now, envelope.task)

/-- What `receive_signed_task` answers. -/
def received (row : DelegatedTaskRow) (v : V) : DelegatedHostTask V :=
  ⟨row.taskId, row.peerId, v, row.authority, row.dataLabels, .pending, [], row.createdAt, row.updatedAt⟩

def receiveSignedTask (peerId : String) (payload : List UInt8) (signatureHex : String) (now : Int) :
    Prog PairedHosts (Except PairedHostError (DelegatedHostTask V)) :=
  if maxSignedEnvelopeBytes < payload.length then pure (.error (.invalid "signed task exceeds 256 KiB"))
  else do
    match ← Prog.read (activePeerPolicy peerId) with
    | .error e => pure (.error e)
    | .ok policy =>
      match inbound lib peerId payload signatureHex now policy with
      | .error e => pure (.error e)
      | .ok (row, v) => do
        match ← Prog.atomic (Calls.transact (insertTask row)) with
        | .error e => pure (.error (.db e))
        | .ok () => pure (.ok (received row v))

def transitionTask (taskId : String) (next : DelegatedHostTaskStatus) (now : Int) :
    Prog PairedHosts (Except PairedHostError Unit) := do
  match ← Prog.read (task lib taskId) with
  | .error e => pure (.error e)
  | .ok none => pure (.error (.taskNotFound taskId))
  | .ok (some current) =>
    if !current.status.allows next then
      pure (.error (.invalidTransition s!"{current.status.asStr} -> {next.asStr}"))
    else do
      -- the status that was read is not part of the `WHERE`
      let () ← Prog.atomic fun t => ((), { t with tasks := t.tasks.update taskId (statusChange next now) })
      pure (.ok ())

def signedResult (payload : List UInt8) (signatureHex : String) (policy : String × List String × List String) :
    Except PairedHostError SignedTaskResult := do
  verifySignature lib policy.1 payload signatureHex
  match lib.resultFromSlice payload with
  | .error e => .error (.invalid s!"signed task result: {e}")
  | .ok result => .ok result

def outcomeStatus (outcome : String) : Except PairedHostError DelegatedHostTaskStatus :=
  if outcome = "completed" then .ok .completed
  else if outcome = "failed" then .ok .failed
  else .error (.invalid "remote outcome must be completed or failed")

def resultStatus (peerId : String) (result : SignedTaskResult) (task : DelegatedHostTask V) :
    Except PairedHostError DelegatedHostTaskStatus := do
  reject (task.peerId ≠ peerId ∨ task.status.active = false)
    (.invalidTransition "result peer or task state mismatch")
  let next ← outcomeStatus result.outcome
  validateArtifacts task.effectiveDataLabels result.artifacts
  .ok next

def recordSignedResult (peerId : String) (payload : List UInt8) (signatureHex : String) (now : Int) :
    Prog PairedHosts (Except PairedHostError (DelegatedHostTask V)) :=
  if maxSignedEnvelopeBytes < payload.length then pure (.error (.invalid "signed task result exceeds 256 KiB"))
  else do
    match ← Prog.read (activePeerPolicy peerId) with
    | .error e => pure (.error e)
    | .ok policy =>
      match signedResult lib payload signatureHex policy with
      | .error e => pure (.error e)
      | .ok result => do
        match ← Prog.read (task lib result.taskId) with
        | .error e => pure (.error e)
        | .ok none => pure (.error (.taskNotFound result.taskId))
        | .ok (some current) =>
          match resultStatus peerId result current with
          | .error e => pure (.error e)
          | .ok next => do
            match ← Prog.atomic (Calls.transact (resultTx result.taskId peerId next result.artifacts now)) with
            | .error e => pure (.error (.db e))
            | .ok () => do
              match ← Prog.read (task lib result.taskId) with
              | .error e => pure (.error e)
              | .ok none => pure (.error (.taskNotFound result.taskId))
              | .ok (some task) => pure (.ok task)

inductive Call (V SK : Type)
  | pair (request : PairOperatorHostRequest)
  | revokePeer (peerId actorTrust : String) (now : Int)
  | issueSignedTask (request : IssueDelegatedHostTask V SK)
  | receiveSignedTask (peerId : String) (payload : List UInt8) (signatureHex : String) (now : Int)
  | transitionTask (taskId : String) (next : DelegatedHostTaskStatus) (now : Int)
  | recordSignedResult (peerId : String) (payload : List UInt8) (signatureHex : String) (now : Int)

inductive Reply (V : Type)
  | paired (peer : PairedHostRow)
  | revoked (changed : Bool)
  | issued (envelope : SignedDelegationEnvelope)
  | task (task : DelegatedHostTask V)
  | moved

def answer {α : Type} (f : α → Reply V) (p : Prog PairedHosts (Except PairedHostError α)) :
    Prog PairedHosts (Except PairedHostError (Reply V)) := do
  let res ← p
  pure (res.map f)

def run : Call V SK → Prog PairedHosts (Except PairedHostError (Reply V))
  | .pair request => answer .paired (pair lib request)
  | .revokePeer peerId actorTrust now => answer .revoked (revokePeer peerId actorTrust now)
  | .issueSignedTask request => answer .issued (issueSignedTask lib request)
  | .receiveSignedTask peerId payload signatureHex now =>
    answer .task (receiveSignedTask lib peerId payload signatureHex now)
  | .transitionTask taskId next now => answer (fun _ => .moved) (transitionTask lib taskId next now)
  | .recordSignedResult peerId payload signatureHex now =>
    answer .task (recordSignedResult lib peerId payload signatureHex now)

end Store

end PairedHostStore

end Execlaw
