import Execlaw.PrincipalGroups
/-!
# PrincipalMerge — merging cold contacts into the principals that claim their handles (`server/src/principal_admit.rs`)

`reconcile_against_my_identities` walks the identifiers that several principals claim.  The claimant of the highest trust
is the target, and each claimant still pending is merged into it: the groups it is a member of are retired, what points
at them goes to the target's own group, and the principal is deleted.
-/
namespace Execlaw

open Table Interleave

structure ReconcileReport where
  merged : List (String × String)
  bindingsRepointed : Nat
  conversationsRepointed : Nat
deriving DecidableEq

def trustRankFor : TrustLevel → Nat
  | .controller => 100
  | .delegated .. => 80
  | .knownTrusted .. => 60
  | .knownLimited .. => 40
  | .blocked .. => 20
  | .unknownPending .. => 1

structure MapOrder where
  order : List Identifier → List Identifier
  perm : ∀ l, (order l).Perm l

def claimed (all : List Principal) : List Identifier := (all.flatMap Principal.identifiers).dedup

def claimants (all : List Principal) (ident : Identifier) : List Principal :=
  all.flatMap fun p => List.replicate (p.identifiers.count ident) p

def before (a b : Principal) : Prop :=
  trustRankFor b.trustLevel < trustRankFor a.trustLevel ∨
    trustRankFor a.trustLevel = trustRankFor b.trustLevel ∧ a.firstSeen ≤ b.firstSeen

instance : DecidableRel before := fun _ _ => inferInstanceAs (Decidable (_ ∨ _))

/-- `sorted`: stable. -/
def ranked (l : List Principal) : List Principal := l.insertionSort before

/-! ## Statements -/

def listGroupsForMember (pid : String) : Prog ContactDb (List String) :=
  .read fun db => (db.members.rows.filter (fun m => decide (m.principalId = pid))).map GroupMember.groupId

def listConversationsForGroup (groupId : String) : Prog ContactDb (List String) :=
  .read fun db => (db.conversations.rows.filter (fun c => decide (c.principalGroupId = some groupId))).map
    ContactConversation.conversationId

def flipChange (newTrustClass : String) (now : Int) : Change ContactConversation.conversationId (fun _ => True) where
  takes := fun _ => true
  set := fun c =>
    { c with
      phase := if c.phase = .awaitingTrustDecision then .idle else c.phase
      trustClass := newTrustClass
      lastActivityAt := now }
  key_set := fun _ => rfl
  keeps_ok := fun _ _ _ => trivial

def flipAwaitingTrustToIdle (conversationId newTrustClass : String) (now : Int) : Prog ContactDb Unit :=
  .atomic fun db =>
    ((), { db with conversations := db.conversations.update conversationId (flipChange newTrustClass now) })

def dropGroupMembers (groupId : String) : Prog ContactDb Unit := .atomic fun db => ((), db.dropMembers groupId)

/-! ## The walk -/

def repointAll (groupId : String) (now : Int) : List TransportBinding → Prog ContactDb Unit
  | [] => pure ()
  | b :: rest => do
    let _ ← TransportBindingStore.repointBinding b.channel b.foreignId groupId now
    repointAll groupId now rest

def rebindAll (groupId trustClass : String) (now : Int) : List String → Prog ContactDb Unit
  | [] => pure ()
  | conversationId :: rest => do
    PrincipalGroupStore.bindConversation conversationId groupId
    flipAwaitingTrustToIdle conversationId trustClass now
    rebindAll groupId trustClass now rest

def staleChannel (stale : Principal) (stored : Option PrincipalGroup) : String :=
  stored.elim ((stale.identifiers.head?.map Identifier.transport).getD "") PrincipalGroup.channel

def targetKey (target : Principal) (channel : String) : GroupKey :=
  ⟨channel, none, [target.id], target.trustLevel.isController⟩

def mergeGroup (lib : GroupLib) (now : Int) (target stale : Principal) (groupId : String) :
    Prog ContactDb (Except DbError (Nat × Nat)) := do
  let stored ← PrincipalGroupStore.get groupId
  match ← PrincipalGroupStore.resolve lib (targetKey target (staleChannel stale stored)) now with
  | .error e => pure (.error e)
  | .ok targetGroup =>
    if targetGroup.groupId = groupId then pure (.ok (0, 0))
    else do
      let bound ← TransportBindingStore.bindingsForGroupAnyChannel groupId
      repointAll targetGroup.groupId now bound
      let convs ← listConversationsForGroup groupId
      rebindAll targetGroup.groupId target.trustLevel.classTag now convs
      dropGroupMembers groupId
      let _ ← PrincipalGroupStore.delete groupId
      pure (.ok (bound.length, convs.length))

def mergeGroups (lib : GroupLib) (now : Int) (target stale : Principal) :
    List String → ReconcileReport → Prog ContactDb (Except DbError ReconcileReport)
  | [], report => pure (.ok report)
  | groupId :: rest, report => do
    match ← mergeGroup lib now target stale groupId with
    | .error e => pure (.error e)
    | .ok (bound, convs) =>
      mergeGroups lib now target stale rest
        { report with
          bindingsRepointed := report.bindingsRepointed + bound
          conversationsRepointed := report.conversationsRepointed + convs }

def mergePrincipal (lib : GroupLib) (now : Int) (target stale : Principal) (report : ReconcileReport) :
    Prog ContactDb (Except DbError ReconcileReport) := do
  let staleGroups ← listGroupsForMember stale.id
  match ← mergeGroups lib now target stale staleGroups report with
  | .error e => pure (.error e)
  | .ok report => do
    let _ ← PrincipalStore.delete stale.id
    pure (.ok { report with merged := report.merged ++ [(stale.id, target.id)] })

/-- `already_merged`: the first components of `merged`. -/
def ReconcileReport.alreadyMerged (report : ReconcileReport) (pid : String) : Bool :=
  decide (pid ∈ report.merged.map Prod.fst)

def mergeClaimants (lib : GroupLib) (now : Int) (target : Principal) :
    List Principal → ReconcileReport → Prog ContactDb (Except DbError ReconcileReport)
  | [], report => pure (.ok report)
  | stale :: rest, report =>
    if !stale.trustLevel.isPending || report.alreadyMerged stale.id then mergeClaimants lib now target rest report
    else do
      match ← mergePrincipal lib now target stale report with
      | .error e => pure (.error e)
      | .ok report => mergeClaimants lib now target rest report

def mergeIdentifier (lib : GroupLib) (now : Int) (all : List Principal) (ident : Identifier) (report : ReconcileReport) :
    Prog ContactDb (Except DbError ReconcileReport) :=
  match ranked (claimants all ident) with
  | [] => pure (.ok report)
  | target :: others =>
    if others.isEmpty || target.trustLevel.isPending then pure (.ok report)
    else mergeClaimants lib now target others report

def mergeIdentifiers (lib : GroupLib) (now : Int) (all : List Principal) :
    List Identifier → ReconcileReport → Prog ContactDb (Except DbError ReconcileReport)
  | [], report => pure (.ok report)
  | ident :: rest, report => do
    match ← mergeIdentifier lib now all ident report with
    | .error e => pure (.error e)
    | .ok report => mergeIdentifiers lib now all rest report

def reconcileAgainstMyIdentities (lib : GroupLib) (o : MapOrder) (now : Int) :
    Prog ContactDb (Except DbError ReconcileReport) := do
  let all ← PrincipalStore.listAll
  mergeIdentifiers lib now all (o.order (claimed all)) ⟨[], 0, 0⟩

end Execlaw
