import Execlaw.PrincipalMerge
import Execlaw.PrincipalTrust
/-!
# ColdContacts — responses to cold-contact approvals (`server/src/approvals.rs`)

An unknown sender parks its conversation, and the operator answers the approval of its first message.  The handler finds
the arrival event by the id of the approval, and nothing marks the approval as used: a response sets the trust of the
sender, or claims the sender as the operator, and hands the queued message to the agent each time it is made.
-/
namespace Execlaw

open Table Interleave

inductive ApprovalVerb | approve | edit | reject | trust | trustLimited | block | ignoreOnce | claimAsMe

def ApprovalVerb.name : ApprovalVerb → String
  | .approve => "Approve"
  | .edit => "Edit"
  | .reject => "Reject"
  | .trust => "Trust"
  | .trustLimited => "TrustLimited"
  | .block => "Block"
  | .ignoreOnce => "IgnoreOnce"
  | .claimAsMe => "ClaimAsMe"

inductive Verdict | trust | trustLimited | block

def Verdict.asStr : Verdict → String
  | .trust => "trust"
  | .trustLimited => "trust_limited"
  | .block => "block"

structure ApprovalRequest where
  verb : ApprovalVerb
  allowedTopics : List String := []
  reason : Option String := none
  approvalToken : Option String := none

structure ApprovalResponse where
  approvalId : String
  principalId : String
  conversationId : String
  newTrustClass : String
  outcome : String

structure ContactLib where
  groups : GroupLib
  verifyToken : String → String → Except String Unit
  controllerPid : String

/-! ## Conversations and the agent -/

/-- The columns `ConversationStore::upsert` overwrites. -/
def conversationChange (row : ContactConversation) : Change ContactConversation.conversationId (fun _ => True) where
  takes := fun _ => true
  set := fun c => { c with phase := row.phase, trustClass := row.trustClass }
  key_set := fun _ => rfl
  keeps_ok := fun _ _ _ => trivial

/-- `ConversationStore::upsert`; a new row belongs to no group. -/
def upsertConversation (row : ContactConversation) : Prog ContactDb Unit :=
  .atomic fun db =>
    let conversations := db.conversations.upsert { row with principalGroupId := none } trivial (conversationChange row)
    ((), { db with conversations := conversations })

def unpark (cid : String) : Prog ContactDb Unit := do
  match ← .read fun db => db.conversations.row cid with
  | none => pure ()
  | some row => upsertConversation { row with phase := .idle }

/-- `EventLog::commit_turn` of one event. -/
def commitTurnEvent (cid : String) (event : ContactEvent) : Prog ContactDb Unit :=
  .atomic fun db => ((), { db with events := db.events ++ [(cid, event)] })

/-- `dispatch_external_turn`: a sender of the lowest classes is refused. -/
def dispatchExternalTurn (turn : AgentTurn) (senderTrust : String) : Prog ContactDb Unit :=
  if senderTrust = "Blocked" ∨ senderTrust = "UnknownPending" then pure ()
  else .atomic fun db => ((), { db with dispatched := db.dispatched ++ [turn] })

/-! ## The handler -/

structure ColdContact where
  conversationId : String
  senderPrincipalId : String
  text : String

def arrivalOf (approvalId : String) : String × ContactEvent → Option ColdContact
  | (cid, .coldContactArrived text sender id) => if id = approvalId then some ⟨cid, sender, text⟩ else none
  | _ => none

/-- `find_cold_contact_event`: the first arrival of the approval in the event log. -/
def findColdContactEvent (approvalId : String) : Prog ContactDb (Option ColdContact) :=
  .read fun db => db.events.findSome? (arrivalOf approvalId)

def Verdict.level (verdict : Verdict) (req : ApprovalRequest) (now : Int) : TrustLevel :=
  match verdict with
  | .trust => .knownTrusted [] "controller" now
  | .trustLimited => .knownLimited [] req.allowedTopics none
  | .block => .blocked "controller" now req.reason

/-- `Trust`, `TrustLimited` and `Block`: set the trust, log it, un-park the conversation, replay the message. -/
def applyVerdict (approvalId : String) (contact : ColdContact) (verdict : Verdict) (req : ApprovalRequest)
    (now clock : Int) : Prog ContactDb (Except ApiError (Option ApprovalResponse)) := do
  let level := verdict.level req now
  match ← PrincipalStore.setTrust contact.senderPrincipalId level clock with
  | .error e => pure (.error (internalError s!"set_trust: {e.display}"))
  | .ok () => do
    commitTurnEvent contact.conversationId
      (.trustChanged contact.senderPrincipalId level.classTag approvalId req.reason)
    let response : ApprovalResponse :=
      ⟨approvalId, contact.senderPrincipalId, contact.conversationId, level.classTag, verdict.asStr⟩
    match verdict with
    | .block => pure (.ok (some response))
    | .trust | .trustLimited => do
      unpark contact.conversationId
      match ← PrincipalStore.get contact.senderPrincipalId with
      | none => pure (.error (internalError "post-trust principal lookup failed"))
      | some promoted => do
        dispatchExternalTurn ⟨approvalId, contact.conversationId, promoted.id, contact.text⟩
          promoted.trustLevel.classTag
        pure (.ok (some response))

/-- `claim_as_me`: the sender's identifiers go to the operator, who is reconciled with it, and the message is replayed as
the operator's; a reconciliation that fails is passed over. -/
def claimAsMe (lib : ContactLib) (o : MapOrder) (approvalId : String) (contact : ColdContact) (now : Int) :
    Prog ContactDb (Except ApiError (Option ApprovalResponse)) := do
  claimIdentifiers contact.senderPrincipalId lib.controllerPid now
  let _ ← reconcileAgainstMyIdentities lib.groups o now
  match ← PrincipalStore.get lib.controllerPid with
  | none => pure (.error (internalError "controller principal vanished mid-claim"))
  | some controller => do
    dispatchExternalTurn ⟨approvalId, contact.conversationId, controller.id, contact.text⟩ "Controller"
    pure (.ok (some ⟨approvalId, lib.controllerPid, contact.conversationId, "Controller", "claim_as_me"⟩))

def ignoreOnce (approvalId : String) (contact : ColdContact) :
    Prog ContactDb (Except ApiError (Option ApprovalResponse)) := do
  unpark contact.conversationId
  pure (.ok (some ⟨approvalId, contact.senderPrincipalId, contact.conversationId, "UnknownPending", "ignore_once"⟩))

def respondTo (lib : ContactLib) (o : MapOrder) (approvalId : String) (contact : ColdContact) (req : ApprovalRequest)
    (now clock : Int) : Prog ContactDb (Except ApiError (Option ApprovalResponse)) :=
  match req.verb with
  | .trust => applyVerdict approvalId contact .trust req now clock
  | .trustLimited => applyVerdict approvalId contact .trustLimited req now clock
  | .block => applyVerdict approvalId contact .block req now clock
  | .ignoreOnce => ignoreOnce approvalId contact
  | .claimAsMe => claimAsMe lib o approvalId contact now
  | .approve | .edit | .reject => pure (.error ⟨400, "unsupported_verb",
      s!"verb {req.verb.name} is not supported for cold-contact approvals; use Trust / TrustLimited / ClaimAsMe / " ++
        "Block / IgnoreOnce"⟩)

def tokenCheck (lib : ContactLib) (approvalId : String) (req : ApprovalRequest) : Except String Unit :=
  req.approvalToken.elim (.ok ()) fun token => lib.verifyToken token approvalId

/-- `respond_handler`; `none` hands the request on to `respond_chain_approval`. -/
def respondHandler (lib : ContactLib) (o : MapOrder) (approvalId : String) (req : ApprovalRequest) (now clock : Int) :
    Prog ContactDb (Except ApiError (Option ApprovalResponse)) := do
  match tokenCheck lib approvalId req with
  | .error e => pure (.error ⟨401, "bad_approval_token", e⟩)
  | .ok () =>
    match ← findColdContactEvent approvalId with
    | none => pure (.ok none)
    | some _ =>
      match ← findColdContactEvent approvalId with
      | none => pure (.error ⟨404, "approval_not_found", "no cold-contact event matches this approval_id"⟩)
      | some contact => respondTo lib o approvalId contact req now clock

inductive ContactCall
  | respond (approvalId : String) (req : ApprovalRequest) (o : MapOrder) (now clock : Int)
  | revoke (principalId : String) (reason : Option String) (now clock : Int)
  | setTrust (principalId : String) (req : SetTrustRequest) (now clock : Int)

def ContactCall.run (lib : ContactLib) : ContactCall → Prog ContactDb (Except ApiError (Option ApprovalResponse))
  | .respond approvalId req o now clock => respondHandler lib o approvalId req now clock
  | .revoke principalId reason now clock => do
    let res ← revokeHandler principalId reason now clock
    pure (res.map fun _ => none)
  | .setTrust principalId req now clock => do
    let res ← setTrustHandler principalId req now clock
    pure (res.map fun _ => none)

end Execlaw
