import Execlaw.EventRecord
import Execlaw.Interleave
import Execlaw.Principals
import Mathlib.Data.List.Dedup
import Mathlib.Data.String.Basic
/-!
# PrincipalGroups — groups of principals and what points at them (`core/src/principal_groups.rs`,
`core/src/transport_bindings.rs`)

A group is a channel and a set of principals; bindings and conversations name the group they belong to.  `ContactDb` is
the tables of principals and groups together, with the event log of the conversations and the turns given to the agent.
Each store call is a program of its database statements: `set_trust` reads a row in one and writes all of it back in
another.  SHA-256 and the UUIDs are the libraries'.
-/
namespace Execlaw

open Table Interleave

structure PrincipalGroup where
  groupId : String
  channel : String
  nativeGroupId : Option String
  principalSetHash : String
  includesController : Bool
  createdAt : Int
  lastActiveAt : Int
  membershipEpoch : Int

structure GroupMember where
  groupId : String
  principalId : String
deriving DecidableEq

structure TransportBinding where
  channel : String
  foreignId : String
  principalGroupId : String
  isGroup : Bool
  createdAt : Int
  lastSeenAt : Option Int

def TransportBinding.key (b : TransportBinding) : String × String := (b.channel, b.foreignId)

inductive ConversationPhase
  | idle | thinking | awaitingTool | awaitingApproval | awaitingWakeup | awaitingReconnect | awaitingTrustDecision
  | trustRevoked
deriving DecidableEq

/-- A row of `state_conversations`, its columns about who takes part. -/
structure ContactConversation where
  conversationId : String
  phase : ConversationPhase
  trustClass : String
  principalGroupId : Option String
  lastActivityAt : Int

/-- The payloads of `state_events` the approvals read and write. -/
inductive ContactEvent
  | coldContactArrived (text senderPrincipalId approvalId : String)
  | trustChanged (principalId newClass approvalId : String) (reason : Option String)
  | other (kind : String) (payload : List UInt8)

/-- A queued message handed to the agent by `dispatch_external_turn`, with the approval it was queued for. -/
structure AgentTurn where
  approvalId : String
  conversationId : String
  principalId : String
  text : String

structure ContactDb where
  principals : PrincipalTables
  groups : Keyed PrincipalGroup.groupId (fun _ => True)
  members : Keyed (id : GroupMember → GroupMember) (fun _ => True)
  bindings : Keyed TransportBinding.key (fun _ => True)
  conversations : Keyed ContactConversation.conversationId (fun _ => True)
  events : List (String × ContactEvent)
  dispatched : List AgentTurn
  minted : Nat

def ContactDb.empty : ContactDb := ⟨.empty, .empty, .empty, .empty, .empty, [], [], 0⟩

/-! ## Principals -/

namespace PrincipalStore

def upsert (p : Principal) : Prog ContactDb Unit :=
  .atomic fun db => ((), { db with principals := db.principals.upsert p })

def get (id : String) : Prog ContactDb (Option Principal) := .read fun db => db.principals.get id

/-- `find_by_identifier`: the index, then the row. -/
def findByIdentifier (ident : Identifier) : Prog ContactDb (Option Principal) := do
  match ← .read fun db => db.principals.holder ident with
  | some id => get id
  | none => pure none

def delete (id : String) : Prog ContactDb Bool :=
  .atomic fun db => ((db.principals.get id).isSome, { db with principals := db.principals.delete id })

def listAll : Prog ContactDb (List Principal) := .read fun db => db.principals.listAll

def setTrust (id : String) (newLevel : TrustLevel) (now : Int) : Prog ContactDb (Except DbError Unit) := do
  match ← get id with
  | none => pure (.error (.invariant s!"cannot set_trust: principal '{id}' not found"))
  | some principal => do
    upsert { principal with trustLevel := newLevel, lastSeen := some now }
    pure (.ok ())

end PrincipalStore

/-! ## Groups -/

structure GroupKey where
  channel : String
  nativeGroupId : Option String
  principals : List String
  includesController : Bool

structure GroupLib where
  sha256Hex : String → String
  uuid : Nat → String

def sortedSet (principals : List String) : List String := (orderBy id principals).dedup

def principalSetHash (lib : GroupLib) (principals : List String) : String :=
  lib.sha256Hex (String.intercalate "\n" (sortedSet principals))

namespace ContactDb

def membersOf (db : ContactDb) (groupId : String) : List String :=
  orderBy id ((db.members.rows.filter (fun m => decide (m.groupId = groupId))).map GroupMember.principalId)

def groupOf (lib : GroupLib) (db : ContactDb) (key : GroupKey) : Option PrincipalGroup :=
  db.groups.rows.find? fun g =>
    match key.nativeGroupId with
    | some native => decide (g.channel = key.channel ∧ g.nativeGroupId = some native)
    | none =>
      decide (g.channel = key.channel ∧ g.principalSetHash = principalSetHash lib key.principals ∧ g.nativeGroupId = none)

def clashes (g g' : PrincipalGroup) : Bool :=
  decide (g.channel = g'.channel ∧ g.nativeGroupId = g'.nativeGroupId ∧
    (g.nativeGroupId = none → g.principalSetHash = g'.principalSetHash))

/-- `INSERT INTO state_principal_groups` with a new id. -/
def insertGroup (lib : GroupLib) (key : GroupKey) (now : Int) (db : ContactDb) : Except DbError String × ContactDb :=
  let g : PrincipalGroup :=
    { groupId := lib.uuid db.minted, channel := key.channel, nativeGroupId := key.nativeGroupId,
      principalSetHash := principalSetHash lib key.principals, includesController := key.includesController,
      createdAt := now, lastActiveAt := now, membershipEpoch := 0 }
  let db := { db with minted := db.minted + 1 }
  if db.groups.rows.any (clashes g) then
    (.error (.sqlite "UNIQUE constraint failed: state_principal_groups.channel, state_principal_groups.principal_set_hash"),
      db)
  else
    match db.groups.insert? g trivial with
    | none => (.error (.sqlite "UNIQUE constraint failed: state_principal_groups.group_id"), db)
    | some groups => (.ok g.groupId, { db with groups := groups })

def writeMembers (groupId : String) (principals : List String) (t : Keyed (id : GroupMember → GroupMember) (fun _ => True)) :
    Keyed (id : GroupMember → GroupMember) (fun _ => True) :=
  principals.foldl (fun t pid => t.insertOrIgnore ⟨groupId, pid⟩ trivial)
    (t.removeAll (fun m => decide (m.groupId = groupId)))

/-- What `reconcile_members` sets on the group: once with the controller, always with it. -/
def touchChange (includesController changed : Bool) (now : Int) : Change PrincipalGroup.groupId (fun _ => True) where
  takes := fun _ => true
  set := fun g =>
    { g with
      includesController := g.includesController || includesController
      lastActiveAt := now
      membershipEpoch := g.membershipEpoch + if changed then 1 else 0 }
  key_set := fun _ => rfl
  keeps_ok := fun _ _ _ => trivial

def reconcileMembers (groupId : String) (principals : List String) (includesController : Bool) (now : Int)
    (db : ContactDb) : ContactDb :=
  let changed := decide (db.membersOf groupId ≠ sortedSet principals)
  { db with
    members := if changed then writeMembers groupId (sortedSet principals) db.members else db.members
    groups := db.groups.update groupId (touchChange includesController changed now) }

def dropMembers (groupId : String) (db : ContactDb) : ContactDb :=
  { db with members := db.members.removeAll (fun m => decide (m.groupId = groupId)) }

end ContactDb

namespace PrincipalGroupStore

/-- `resolve`: look the group up or insert it, make its members those of the key, read it back. -/
def resolve (lib : GroupLib) (key : GroupKey) (now : Int) : Prog ContactDb (Except DbError PrincipalGroup) := do
  let existing ← .read fun db => db.groupOf lib key
  let found ← match existing with
    | some g => pure (.ok g.groupId)
    | none => .atomic (ContactDb.insertGroup lib key now)
  match found with
  | .error e => pure (.error e)
  | .ok groupId => do
    Prog.atomic fun db => ((), db.reconcileMembers groupId key.principals key.includesController now)
    match ← .read fun db => db.groups.row groupId with
    | none => pure (.error (.sqlite "Query returned no rows"))
    | some g => pure (.ok g)

def get (groupId : String) : Prog ContactDb (Option PrincipalGroup) := .read fun db => db.groups.row groupId

/-- `delete`: the members, then the group, in one transaction. -/
def delete (groupId : String) : Prog ContactDb Bool :=
  .atomic fun db => ((db.groups.row groupId).isSome,
    { db.dropMembers groupId with groups := db.groups.remove groupId (fun _ => true) })

def bindChange (groupId : String) : Change ContactConversation.conversationId (fun _ => True) where
  takes := fun _ => true
  set := fun c => { c with principalGroupId := some groupId }
  key_set := fun _ => rfl
  keeps_ok := fun _ _ _ => trivial

def bindConversation (conversationId groupId : String) : Prog ContactDb Unit :=
  .atomic fun db => ((), { db with conversations := db.conversations.update conversationId (bindChange groupId) })

end PrincipalGroupStore

/-! ## Bindings -/

namespace TransportBindingStore

def bindingsForGroupAnyChannel (groupId : String) : Prog ContactDb (List TransportBinding) :=
  .read fun db => orderBy TransportBinding.createdAt
    (db.bindings.rows.filter (fun b => decide (b.principalGroupId = groupId)))

def repointChange (groupId : String) (now : Int) : Change TransportBinding.key (fun _ => True) where
  takes := fun _ => true
  set := fun b => { b with principalGroupId := groupId, lastSeenAt := some now }
  key_set := fun _ => rfl
  keeps_ok := fun _ _ _ => trivial

/-- `repoint_binding`: returns the group it pointed at. -/
def repointBinding (channel foreignId groupId : String) (now : Int) : Prog ContactDb (Option String) :=
  .atomic fun db => ((db.bindings.row (channel, foreignId)).map TransportBinding.principalGroupId,
    { db with bindings := db.bindings.update (channel, foreignId) (repointChange groupId now) })

end TransportBindingStore

end Execlaw
