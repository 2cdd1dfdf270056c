import Execlaw.Decimals
import Execlaw.InformationStore
import Execlaw.Json
import Execlaw.Principals
import Execlaw.StagedSends
/-!
# TransportOutbox — sends and their labels (`server/src/transport_outbox.rs`)

A send is queued with a label: the trust class and the policy revision it was allowed under, and the principal who
allowed it.  The label is that of the text, stored once; so a text sent before goes under its old label
(`Outgoing.sentLabel`).  Before delivery the label is compared with what holds then (`validateOutboundAuthority`).
-/
namespace Execlaw

/-! ## Effects -/

structure OwnerFence where
  agentId : String
  generation : Nat
  scopeKey : String

structure TransportSendEffect where
  channel : String
  recipient : String
  text : String
  modelSeq : Option Int := none
  archiveMessageId : Option String := none
  owner : Option OwnerFence := none

structure TransportAttachmentEffect where
  channel : String
  recipient : String
  text : String
  attachments : List String

inductive TransportEffect
  | send (effect : TransportSendEffect)
  | attachments (effect : TransportAttachmentEffect)

namespace TransportEffect

def kind : TransportEffect → String
  | send _ => "transport.send"
  | attachments _ => "transport.send_attachments"

def channel : TransportEffect → String
  | send effect => effect.channel
  | attachments effect => effect.channel

def recipient : TransportEffect → String
  | send effect => effect.recipient
  | attachments effect => effect.recipient

def text : TransportEffect → String
  | send effect => effect.text
  | attachments effect => effect.text

end TransportEffect

structure OutboundHost where
  digest : String → String
  fingerprint : TrustLevel → String
  encode : TransportEffect → InformationLabel → List UInt8
  /-- Of an effect kind. -/
  decode : String → List UInt8 → Except String (TransportEffect × InformationLabel)
  scopeKey : String → String → String → String
  mintScoped : String → List UInt8 → Nat → String

structure ReplayedEvent where
  seq : Int
  kind : EventKind
  /-- The payload, if it is JSON. -/
  payload : Option Json

/-- What sends and their checks read: the tables, the labels, the trust class of each conversation, the trust level of
each principal, the latest policy revision, who the controller is, and the events of a conversation. -/
structure OutboundState where
  db : Db
  labels : LabelHistory
  trustClass : String → Option String
  principals : String → Option TrustLevel
  policyRevision : Int
  controllerId : Option String
  replay : String → Except DbError (List ReplayedEvent)

variable (host : OutboundHost)

def turnSeqOf (sourceId : String) : Option Int :=
  if "turn:".toList.isPrefixOf sourceId.toList then
    parseI64 ((sourceId.toList.drop "turn:".length).takeWhile (· ≠ ':'))
  else none

def findRunForInput (db : Db) (conversationId : String) (inputEventSeq : Int) : Option RunRow :=
  ((db.runs.filter fun r => r.conversationId = conversationId ∧ r.inputEventSeq = inputEventSeq).mergeSort fun a b =>
    decide (a.startedAt < b.startedAt ∨ a.startedAt = b.startedAt ∧ a.runId ≤ b.runId)).head?

def runLabel (s : OutboundState) (conversationId sourceId : String) : Option InformationLabel := do
  let turnSeq ← turnSeqOf sourceId
  let run ← findRunForInput s.db conversationId turnSeq
  let (_, label) ← (s.labels.latestForIdentity "run" run.runId).toOption.join
  some label

def transportInformationLabel (s : OutboundState) (conversationId channel recipient sourceId : String) :
    InformationLabel :=
  let trustClass := (s.trustClass conversationId).getD "Unknown"
  let label := InformationLabel.observed .sensitive (some conversationId) trustClass "conversation_output" sourceId
    [s!"transport:{channel}:{recipient}".toList]
  let combined := do
    let run ← runLabel s conversationId sourceId
    InformationLabel.combine [label, run] "transport_effect"
  (combined.getD label).withPolicyRevision s.policyRevision

def transportInformationSubject (sourceId text : String) : InformationSubject :=
  ⟨"transport_effect", sourceId, host.digest text⟩

def persistTransportInformationLabel (labels : LabelHistory) (sourceId text : String) (label : InformationLabel)
    (now : Int) : Except String (InformationLabel × LabelHistory) :=
  match labels.get (transportInformationSubject host sourceId text) with
  | .error e => .error s!"read outbound information label: {e.display}"
  | .ok (some existing) =>
    if existing.authorityPrincipalId ≠ label.authorityPrincipalId ∨
        existing.authorityFingerprint ≠ label.authorityFingerprint then
      .error "outbound information label is bound to different authority"
    else .ok (existing, labels)
  | .ok none =>
    match labels.observe (transportInformationSubject host sourceId text) label "host:transport-outbox" now with
    | .error e => .error s!"persist outbound information label: {e.display}"
    | .ok labels => .ok (label, labels)

def loadTransportInformationLabel (labels : LabelHistory) (text : String) (payloadLabel : Option InformationLabel) :
    Except String (Option InformationLabel) :=
  match payloadLabel with
  | none => .ok none
  | some label =>
    match label.provenance.head? with
    | none => .error "outbound information provenance is missing"
    | some entry =>
      match labels.get (transportInformationSubject host entry.sourceId text) with
      | .error _ => .error "outbound information label lookup failed"
      | .ok stored => .ok (stored.or (some label))

/-- `"controller"` stands for the principal of the controller. -/
def resolveController (s : OutboundState) (principalId : String) : Option String :=
  if principalId = "controller" then s.controllerId else some principalId

def originatingPrincipalAuthority (s : OutboundState) (conversationId : String) (modelSeq : Int) :
    Except String (Option (String × String)) :=
  match s.replay conversationId with
  | .error e => .error s!"read outbound source events: {e.display}"
  | .ok events =>
    let senders := events.filter fun ev => ev.seq < modelSeq ∧ ev.kind = .userMsg
    .ok do
      let rawId ← senders.reverse.findSome? fun ev => do ((← ev.payload).get "sender_principal_id") >>= Json.asStr
      let principalId ← resolveController s rawId
      let principalId ← resolveController s principalId
      let level ← s.principals principalId
      some (principalId, host.fingerprint level)

/-! ## Queueing -/

structure Outgoing where
  conversationId : String
  key : String
  sourceId : String
  effect : TransportEffect
  authority : Option (String × String) := none
  nextAttemptAt : Option Int := none
  enqueuedSeq : Int
  owner : Option EffectOwner := none
  /-- The text before an error of the outbox. -/
  failure : String

def isBlankText (text : String) : Bool := (trim text).isEmpty

def badAttachments (attachments : List String) : Bool :=
  attachments.isEmpty || 64 < attachments.length || attachments.any (256 < ·.utf8ByteSize) || attachments.any isBlankText

inductive SendRequest
  /-- `enqueue_text`. -/
  | text (conversationId : String) (modelSeq : Int) (channel recipient text archiveMessageId : String)
  /-- `enqueue_agent_text`. -/
  | agentText (agentId : String) (mailboxScope : List UInt8) (conversationId channel recipient text : String)
      (archiveMessageId : String)
  /-- `stage_plugin_text`. -/
  | pluginText (conversationId : String) (turnSeq : Int) (ordinal : UInt32) (channel recipient text : String)
      (authority : Option (String × String))
  /-- `stage_plugin_attachments_with_authority`. -/
  | pluginAttachments (conversationId : String) (turnSeq : Int) (ordinal : UInt32) (channel recipient text : String)
      (attachments : List String) (authority : Option (String × String))
  /-- `enqueue_task_attachments`. -/
  | taskAttachments (conversationId : String) (sourceSeq : Int) (taskScope : List UInt8)
      (channel recipient text : String) (attachments : List String)

def enqueueText (s : OutboundState) (conversationId : String) (modelSeq : Int)
    (channel recipient text archiveMessageId : String) : Except String Outgoing :=
  if modelSeq ≤ 0 ∨ channel.isEmpty ∨ recipient.isEmpty ∨ isBlankText text then
    .error "transport effect is missing its committed source or destination"
  else
    match originatingPrincipalAuthority host s conversationId modelSeq with
    | .error e => .error e
    | .ok authority => .ok {
        conversationId, authority
        key := mintKey conversationId modelSeq 0
        sourceId := s!"event:{modelSeq}"
        effect := .send { channel, recipient, text, modelSeq, archiveMessageId }
        enqueuedSeq := modelSeq
        failure := "persist transport effect: " }

def enqueueAgentText (s : OutboundState) (agentId : String) (mailboxScope : List UInt8)
    (conversationId channel recipient text archiveMessageId : String) : Except String Outgoing :=
  let scopeKey := host.scopeKey conversationId channel recipient
  match s.db.owner scopeKey with
  | none => .error "automatic agent transport has no owner"
  | some ownership =>
    if ownership.ownerKind ≠ .agent ∨ ownership.agentId ≠ some agentId then
      .error "automatic agent lost transport ownership"
    else .ok {
      conversationId
      key := host.mintScoped conversationId mailboxScope 0
      sourceId := "agent_output"
      effect := .send {
        channel, recipient, text, archiveMessageId
        owner := some ⟨agentId, ownership.generation, scopeKey⟩ }
      enqueuedSeq := max (lastSeq s.db conversationId) 1
      owner := some ⟨scopeKey, agentId, ownership.generation⟩
      failure := "persist transport effect: " }

def stagePluginText (conversationId : String) (turnSeq : Int) (ordinal : UInt32) (channel recipient text : String)
    (authority : Option (String × String)) : Except String Outgoing :=
  if turnSeq ≤ 0 ∨ channel.isEmpty ∨ recipient.isEmpty ∨ isBlankText text then
    .error "transport tool effect is missing its turn, destination, or text"
  else .ok {
    conversationId, authority
    key := mintKey conversationId turnSeq ordinal
    sourceId := s!"turn:{turnSeq}:{ordinal}"
    effect := .send { channel, recipient, text }
    nextAttemptAt := some stagedAt
    enqueuedSeq := turnSeq
    failure := "stage transport tool effect: " }

def stagePluginAttachmentsWithAuthority (conversationId : String) (turnSeq : Int) (ordinal : UInt32)
    (channel recipient text : String) (attachments : List String) (authority : Option (String × String)) :
    Except String Outgoing :=
  if turnSeq ≤ 0 ∨ channel.isEmpty ∨ recipient.isEmpty ∨ isBlankText text ∨ badAttachments attachments then
    .error "transport attachment effect is missing its turn, destination, or attachment"
  else .ok {
    conversationId, authority
    key := mintKey conversationId turnSeq ordinal
    sourceId := s!"turn:{turnSeq}:{ordinal}"
    effect := .attachments ⟨channel, recipient, text, attachments⟩
    nextAttemptAt := some stagedAt
    enqueuedSeq := turnSeq
    failure := "stage transport attachment effect: " }

def enqueueTaskAttachments (conversationId : String) (sourceSeq : Int) (taskScope : List UInt8)
    (channel recipient text : String) (attachments : List String) : Except String Outgoing :=
  if sourceSeq ≤ 0 ∨ channel.isEmpty ∨ recipient.isEmpty ∨ isBlankText text ∨ taskScope = [] ∨
      badAttachments attachments then
    .error "task attachment effect is missing its source, scope, or destination"
  else .ok {
    conversationId
    key := host.mintScoped conversationId taskScope 0
    sourceId := "task_attachment"
    effect := .attachments ⟨channel, recipient, text, attachments⟩
    enqueuedSeq := sourceSeq
    failure := "persist task attachment effect: " }

def SendRequest.outgoing (s : OutboundState) : SendRequest → Except String Outgoing
  | .text cid modelSeq channel recipient message archiveId =>
    enqueueText host s cid modelSeq channel recipient message archiveId
  | .agentText agentId scope cid channel recipient message archiveId =>
    enqueueAgentText host s agentId scope cid channel recipient message archiveId
  | .pluginText cid turnSeq ordinal channel recipient message authority =>
    stagePluginText cid turnSeq ordinal channel recipient message authority
  | .pluginAttachments cid turnSeq ordinal channel recipient message attachments authority =>
    stagePluginAttachmentsWithAuthority cid turnSeq ordinal channel recipient message attachments authority
  | .taskAttachments cid sourceSeq scope channel recipient message attachments =>
    enqueueTaskAttachments host cid sourceSeq scope channel recipient message attachments

namespace Outgoing

def subject (o : Outgoing) : InformationSubject := transportInformationSubject host o.sourceId o.effect.text

def label (s : OutboundState) (o : Outgoing) : InformationLabel :=
  let label := transportInformationLabel s o.conversationId o.effect.channel o.effect.recipient o.sourceId
  match o.authority with
  | some (principalId, fingerprint) => label.withAuthority principalId fingerprint
  | none => label

def sentLabel (s : OutboundState) (o : Outgoing) : InformationLabel := (s.labels.lookup (o.subject host)).getD (o.label s)

def row (o : Outgoing) (label : InformationLabel) : OutboxRow where
  idempotencyKey := o.key
  conversationId := o.conversationId
  effectKind := o.effect.kind
  payload := host.encode o.effect label
  nextAttemptAt := o.nextAttemptAt
  enqueuedSeq := o.enqueuedSeq

def store (o : Outgoing) (now : Int) (s : OutboundState) : Except String Int × OutboundState :=
  match persistTransportInformationLabel host s.labels o.sourceId o.effect.text (o.label s) now with
  | .error e => (.error e, s)
  | .ok (label, labels) =>
    match enqueueIdempotentGuarded (o.row host label) o.owner now s.db with
    | (.error e, db) => (.error (o.failure ++ e.display), { s with labels, db })
    | (.ok (id, _), db) => (.ok id, { s with labels, db })

end Outgoing

def SendRequest.enqueue (req : SendRequest) (now : Int) (s : OutboundState) : Except String Int × OutboundState :=
  match req.outgoing host s with
  | .error e => (.error e, s)
  | .ok o => o.store host now s

/-! ## The check before delivery -/

def validateOutboundAuthority (s : OutboundState) (now : Int) (label : Option InformationLabel) : Except String Unit :=
  match label with
  | none => .error "outbound effect is missing its authority receipt"
  | some label =>
    if label.authorityPolicyRevision ≠ some s.policyRevision then .error "outbound policy changed before delivery"
    else
      match label.authorityPrincipalId, label.authorityFingerprint with
      | some principalId, some expected =>
        match s.principals principalId with
        | none => .error "outbound principal was removed"
        | some level =>
          if host.fingerprint level ≠ expected ∨ level.classTag ≠ label.sourceTrustClass then
            .error "outbound authority changed before delivery"
          else
            match level with
            | .blocked .. | .unknownPending .. => .error "outbound principal is no longer trusted"
            | .delegated _ _ (some expiresAt) =>
              if expiresAt ≤ now then .error "outbound delegated authority expired before delivery" else .ok ()
            | _ => .ok ()
      | none, none => .ok ()
      | _, _ => .error "outbound authority receipt is incomplete"

def checkAuthority (s : OutboundState) (now : Int) (effectKind : String) (payload : List UInt8) : Except String Unit :=
  match host.decode effectKind payload with
  | .error e => .error e
  | .ok (effect, label) =>
    match loadTransportInformationLabel host s.labels effect.text (some label) with
    | .error e => .error e
    | .ok label => validateOutboundAuthority host s now label

variable {host} {s : OutboundState} {o : Outgoing} {label : InformationLabel} {labels labels' : LabelHistory} {now : Int}

def transportTrustClass (s : OutboundState) (conversationId sourceId : String) : String :=
  let trustClass := (s.trustClass conversationId).getD "Unknown"
  match runLabel s conversationId sourceId with
  | some run => if trustRank run.sourceTrustClass < trustRank trustClass then run.sourceTrustClass else trustClass
  | none => trustClass

theorem head?_foldl_push : ∀ (more : List ProvenanceEntry) (entry : ProvenanceEntry) (ps : List ProvenanceEntry),
    (more.foldl (fun ps e => if e ∈ ps then ps else ps ++ [e]) (entry :: ps)).head? = some entry
  | [], _, _ => rfl
  | e :: more, entry, ps => by
    rw [List.foldl_cons]
    split
    · exact head?_foldl_push more entry ps
    · exact head?_foldl_push more entry (ps ++ [e])

theorem transportInformationLabel_spec (s : OutboundState) (cid channel recipient sourceId : String) :
    let label := transportInformationLabel s cid channel recipient sourceId
    (∃ entry, label.provenance.head? = some entry ∧ entry.sourceId = sourceId) ∧
    label.sourceTrustClass = transportTrustClass s cid sourceId ∧
    label.authorityPrincipalId = none ∧ label.authorityFingerprint = none ∧
    label.authorityPolicyRevision = some s.policyRevision := by
  unfold transportInformationLabel transportTrustClass
  cases runLabel s cid sourceId with
  | none => exact ⟨⟨_, rfl, rfl⟩, rfl, rfl, rfl, rfl⟩
  | some run =>
    have hhead := head?_foldl_push run.provenance
      ⟨"conversation_output", sourceId, some cid, (s.trustClass cid).getD "Unknown", none⟩ []
    refine ⟨⟨⟨"conversation_output", sourceId, some cid, (s.trustClass cid).getD "Unknown", some "transport_effect"⟩,
      ?_, rfl⟩, rfl, rfl, rfl, rfl⟩
    exact (List.head?_map ..).trans (congrArg (Option.map _) hhead)

theorem Outgoing.label_spec (o : Outgoing) (s : OutboundState) :
    (∃ entry, (o.label s).provenance.head? = some entry ∧ entry.sourceId = o.sourceId) ∧
    (o.label s).sourceTrustClass = transportTrustClass s o.conversationId o.sourceId ∧
    (o.label s).authorityPrincipalId = o.authority.map Prod.fst ∧
    (o.label s).authorityFingerprint = o.authority.map Prod.snd ∧
    (o.label s).authorityPolicyRevision = some s.policyRevision := by
  obtain ⟨hhead, hclass, hprincipal, hfingerprint, hrevision⟩ :=
    transportInformationLabel_spec s o.conversationId o.effect.channel o.effect.recipient o.sourceId
  unfold Outgoing.label
  cases o.authority with
  | none => exact ⟨hhead, hclass, hprincipal, hfingerprint, hrevision⟩
  | some authority => exact ⟨hhead, hclass, rfl, rfl, hrevision⟩

theorem persist_eq_ok {sourceId text : String} {asked : InformationLabel}
    (h : persistTransportInformationLabel host labels sourceId text asked now = .ok (label, labels')) :
    validateSubject (transportInformationSubject host sourceId text) = .ok () ∧
    ((labels.lookup (transportInformationSubject host sourceId text) = some label ∧ labels' = labels ∧
        label.authorityPrincipalId = asked.authorityPrincipalId ∧
        label.authorityFingerprint = asked.authorityFingerprint) ∨
      (labels.lookup (transportInformationSubject host sourceId text) = none ∧ label = asked ∧
        labels.observe (transportInformationSubject host sourceId text) asked "host:transport-outbox" now =
          .ok labels')) := by
  unfold persistTransportInformationLabel LabelHistory.get at h
  cases hsubject : validateSubject (transportInformationSubject host sourceId text) with
  | error e => simp [hsubject] at h
  | ok u =>
    refine ⟨rfl, ?_⟩
    cases hlookup : labels.lookup (transportInformationSubject host sourceId text) with
    | some existing =>
      simp only [hsubject, hlookup] at h
      split_ifs at h with hother
      cases h
      simp only [not_or, not_not] at hother
      exact .inl ⟨rfl, rfl, hother.1, hother.2⟩
    | none =>
      simp only [hsubject, hlookup] at h
      split at h
      · cases h
      · next stored hobserve =>
        cases h
        exact .inr ⟨rfl, rfl, hobserve⟩

theorem Outgoing.sentLabel_eq (h : persistTransportInformationLabel host s.labels o.sourceId o.effect.text (o.label s)
    now = .ok (label, labels)) : o.sentLabel host s = label := by
  unfold Outgoing.sentLabel Outgoing.subject
  rcases (persist_eq_ok h).2 with ⟨hlookup, -⟩ | ⟨hlookup, rfl, -⟩
  · rw [hlookup, Option.getD_some]
  · rw [hlookup, Option.getD_none]

/-! ## The outbox -/

theorem enqueueIdempotentGuarded_outbox (row : OutboxRow) (owner : Option EffectOwner) (now : Int) (db : Db) :
    (enqueueIdempotentGuarded row owner now db).2.outbox = db.outbox ∨
    ∃ r, (enqueueIdempotentGuarded row owner now db).2.outbox = db.outbox ++ [r] ∧ r.payload = row.payload ∧
      r.effectKind = row.effectKind := by
  refine transaction_snd (P := fun db' => db'.outbox = db.outbox ∨ ∃ r, db'.outbox = db.outbox ++ [r] ∧
    r.payload = row.payload ∧ r.effectKind = row.effectKind) (.inl rfl) ?_
  intro a db' h
  split at h
  · cases h
  split at h
  · -- a replayed key inserts nothing
    repeat split at h
    all_goals cases h
    exact .inl rfl
  · cases h
    exact .inr ⟨_, rfl, rfl, rfl⟩

theorem Outgoing.store_creates {r : OutboxRec} (hnew : r ∈ (o.store host now s).2.db.outbox) (hold : r ∉ s.db.outbox) :
    ∃ label labels, persistTransportInformationLabel host s.labels o.sourceId o.effect.text (o.label s) now =
        .ok (label, labels) ∧ r.payload = host.encode o.effect label ∧ r.effectKind = o.effect.kind ∧
      ∃ db, (o.store host now s).2 = { s with labels, db } := by
  unfold Outgoing.store at hnew ⊢
  cases hpersist : persistTransportInformationLabel host s.labels o.sourceId o.effect.text (o.label s) now with
  | error e =>
    rw [hpersist] at hnew
    exact absurd hnew hold
  | ok stored =>
    obtain ⟨label, labels⟩ := stored
    simp only [hpersist] at hnew
    refine ⟨label, labels, rfl, ?_⟩
    have hrow := enqueueIdempotentGuarded_outbox (o.row host label) o.owner now s.db
    dsimp only
    generalize enqueueIdempotentGuarded (o.row host label) o.owner now s.db = queued at hnew hrow ⊢
    obtain ⟨result, db⟩ := queued
    have hin : r ∈ db.outbox := by
      cases result with
      | error e | ok id => exact hnew
    rcases hrow with hsame | ⟨r', happend, hpayload, hkind⟩
    · exact absurd (hsame ▸ hin) hold
    · have hr : r = r' := by
        rw [happend, List.mem_append, List.mem_singleton] at hin
        exact hin.resolve_left hold
      subst hr
      refine ⟨hpayload, hkind, db, ?_⟩
      cases result with
      | error e | ok id => rfl

end Execlaw
