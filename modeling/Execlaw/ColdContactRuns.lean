import Execlaw.ColdContacts
/-!
# ColdContactRuns — how often an approval acts, in every interleaving

A response hands its message to the agent at most once, at its end.  So an approval acts once as long as every response
to it that comes behind a decision is one the handler refuses: its token does not verify, its verb is none of the cold
contacts', there is no arrival, or the principal whose trust it would set is gone.
-/
namespace Execlaw

open Table Interleave Steps

def turnsOf (approvalId : String) (db : ContactDb) : Nat :=
  db.dispatched.countP (fun t => decide (t.approvalId = approvalId))

def contactOf (approvalId : String) (db : ContactDb) : Option ColdContact := db.events.findSome? (arrivalOf approvalId)

/-! ## Statements that dispatch nothing -/

structure Onward (db db' : ContactDb) : Prop where
  arrivals : ∀ a, contactOf a db' = contactOf a db
  conversations : ∀ cid, (db.conversations.row cid).isSome = true → (db'.conversations.row cid).isSome = true

theorem Onward.refl (db : ContactDb) : Onward db db := ⟨fun _ => rfl, fun _ h => h⟩

theorem Onward.trans {a b c : ContactDb} (h : Onward a b) (h' : Onward b c) : Onward a c :=
  ⟨fun i => (h'.arrivals i).trans (h.arrivals i), fun cid hcid => h'.conversations cid (h.conversations cid hcid)⟩

structure Steady (db db' : ContactDb) : Prop where
  onward : Onward db db'
  turns : db'.dispatched = db.dispatched

theorem Steady.of_eq {db db' : ContactDb} (hevents : db'.events = db.events)
    (hconversations : db'.conversations = db.conversations) (hturns : db'.dispatched = db.dispatched) :
    Steady db db' :=
  ⟨⟨fun a => by rw [contactOf, hevents, contactOf], fun cid h => by rwa [hconversations]⟩, hturns⟩

theorem steady_update (db : ContactDb) (cid : String)
    (change : Change ContactConversation.conversationId fun _ => True) :
    Steady db { db with conversations := db.conversations.update cid change } :=
  ⟨⟨fun _ => rfl, fun _ h => Keyed.row_isSome_update change h⟩, rfl⟩

abbrev SteadyProg {α : Type} (p : Prog ContactDb α) : Prop := p.Moves Steady

theorem steady_read {α : Type} (f : ContactDb → α) : SteadyProg (.read f) := Prog.moves_read fun _ => .of_eq rfl rfl rfl

theorem steady_pure {α : Type} (a : α) : SteadyProg (pure a) := Prog.moves_ret a

theorem steady_setTrust (id : String) (level : TrustLevel) (clock : Int) :
    SteadyProg (PrincipalStore.setTrust id level clock) := by
  unfold PrincipalStore.setTrust
  refine (steady_read _).bind fun row => ?_
  split
  · exact steady_pure _
  · exact (Prog.moves_atomic fun _ => .of_eq rfl rfl rfl).bind fun _ => steady_pure _

theorem steady_revokeHandler (id : String) (reason : Option String) (now clock : Int) :
    SteadyProg (revokeHandler id reason now clock) := by
  unfold revokeHandler
  refine (steady_read _).bind fun row => ?_
  split
  · exact steady_pure _
  · exact (steady_setTrust _ _ _).bind fun _ => steady_pure _

theorem steady_setTrustHandler (id : String) (req : SetTrustRequest) (now clock : Int) :
    SteadyProg (setTrustHandler id req now clock) := by
  unfold setTrustHandler
  refine (steady_read _).bind fun row => ?_
  split
  · exact steady_pure _
  split
  · exact steady_pure _
  · exact (steady_setTrust _ _ _).bind fun _ => steady_pure _

theorem steady_commitTrustChanged (cid pid newClass approvalId : String) (reason : Option String) :
    SteadyProg (commitTurnEvent cid (.trustChanged pid newClass approvalId reason)) := by
  refine Prog.moves_atomic fun db => ⟨⟨fun a => ?_, fun _ h => h⟩, rfl⟩
  simp [contactOf, List.findSome?_append, arrivalOf]

theorem steady_unpark (cid : String) : SteadyProg (unpark cid) := by
  unfold unpark
  refine (steady_read _).bind fun row => ?_
  split
  · exact steady_pure _
  · exact Prog.moves_atomic fun _ => ⟨⟨fun _ => rfl, fun _ h => Keyed.row_isSome_upsert trivial _ h⟩, rfl⟩

theorem steady_claimIdentifiers (stalePid controllerPid : String) (now : Int) :
    SteadyProg (claimIdentifiers stalePid controllerPid now) := by
  unfold claimIdentifiers
  refine (steady_read _).bind fun stale => (steady_read _).bind fun row => ?_
  dsimp only
  split
  · exact Prog.moves_atomic fun _ => .of_eq rfl rfl rfl
  · exact steady_pure _

/-! ### The reconciliation -/

section Reconcile

variable (lib : GroupLib) (now : Int)

theorem steady_insertGroup (key : GroupKey) (db : ContactDb) : Steady db (db.insertGroup lib key now).2 := by
  unfold ContactDb.insertGroup
  dsimp only
  split
  · exact .of_eq rfl rfl rfl
  · split <;> exact .of_eq rfl rfl rfl

theorem steady_resolve (key : GroupKey) : SteadyProg (PrincipalGroupStore.resolve lib key now) := by
  unfold PrincipalGroupStore.resolve
  refine (steady_read _).bind fun existing => ?_
  split
  · refine (Prog.moves_atomic fun _ => .of_eq rfl rfl rfl).bind fun _ => (steady_read _).bind fun row => ?_
    cases row <;> exact steady_pure _
  · refine (Prog.moves_atomic fun db => steady_insertGroup lib now key db).bind fun found => ?_
    cases found with
    | error e => exact steady_pure _
    | ok groupId =>
      refine (Prog.moves_atomic fun _ => .of_eq rfl rfl rfl).bind fun _ => (steady_read _).bind fun row => ?_
      cases row <;> exact steady_pure _

theorem steady_repointAll (groupId : String) : ∀ (bound : List TransportBinding), SteadyProg (repointAll groupId now bound)
  | [] => steady_pure _
  | _ :: rest => (Prog.moves_atomic fun _ => .of_eq rfl rfl rfl).bind fun _ => steady_repointAll groupId rest

theorem steady_rebindAll (groupId trustClass : String) : ∀ (convs : List String),
    SteadyProg (rebindAll groupId trustClass now convs)
  | [] => steady_pure _
  | _ :: rest => (Prog.moves_atomic fun db => steady_update db _ _).bind fun _ =>
    (Prog.moves_atomic fun db => steady_update db _ _).bind fun _ => steady_rebindAll groupId trustClass rest

theorem steady_mergeGroup (target stale : Principal) (groupId : String) :
    SteadyProg (mergeGroup lib now target stale groupId) := by
  unfold mergeGroup
  refine (steady_read _).bind fun stored => (steady_resolve lib now _).bind fun found => ?_
  split
  · exact steady_pure _
  split
  · exact steady_pure _
  · exact (steady_read _).bind fun _ => (steady_repointAll now _ _).bind fun _ => (steady_read _).bind fun _ =>
      (steady_rebindAll now _ _ _).bind fun _ => (Prog.moves_atomic fun _ => .of_eq rfl rfl rfl).bind fun _ =>
        (Prog.moves_atomic fun _ => .of_eq rfl rfl rfl).bind fun _ => steady_pure _

theorem steady_mergeGroups (target stale : Principal) : ∀ (groups : List String) (report : ReconcileReport),
    SteadyProg (mergeGroups lib now target stale groups report)
  | [], _ => steady_pure _
  | g :: rest, report => by
    rw [mergeGroups]
    refine (steady_mergeGroup lib now target stale g).bind fun counts => ?_
    split
    · exact steady_pure _
    · exact steady_mergeGroups target stale rest _

theorem steady_mergeClaimants (target : Principal) : ∀ (others : List Principal) (report : ReconcileReport),
    SteadyProg (mergeClaimants lib now target others report)
  | [], _ => steady_pure _
  | s :: rest, report => by
    rw [mergeClaimants]
    split
    · exact steady_mergeClaimants target rest report
    have hone : SteadyProg (mergePrincipal lib now target s report) := by
      unfold mergePrincipal
      refine (steady_read _).bind fun groups => (steady_mergeGroups lib now target s _ _).bind fun merged => ?_
      split
      · exact steady_pure _
      · exact (Prog.moves_atomic fun _ => .of_eq rfl rfl rfl).bind fun _ => steady_pure _
    refine hone.bind fun merged => ?_
    split
    · exact steady_pure _
    · exact steady_mergeClaimants target rest _

theorem steady_mergeIdentifiers (all : List Principal) : ∀ (idents : List Identifier) (report : ReconcileReport),
    SteadyProg (mergeIdentifiers lib now all idents report)
  | [], _ => steady_pure _
  | ident :: rest, report => by
    rw [mergeIdentifiers]
    have hone : SteadyProg (mergeIdentifier lib now all ident report) := by
      unfold mergeIdentifier
      split
      · exact steady_pure _
      split
      · exact steady_pure _
      · exact steady_mergeClaimants lib now _ _ _
    refine hone.bind fun merged => ?_
    split
    · exact steady_pure _
    · exact steady_mergeIdentifiers all rest _

theorem steady_reconcile (o : MapOrder) : SteadyProg (reconcileAgainstMyIdentities lib o now) :=
  (steady_read _).bind fun _ => steady_mergeIdentifiers lib now _ _ _

end Reconcile

/-! ## What a call does -/

def ApprovalVerb.decides : ApprovalVerb → Bool
  | .trust | .trustLimited | .block | .claimAsMe => true
  | .approve | .edit | .reject | .ignoreOnce => false

def ContactCall.decides (lib : ContactLib) (approvalId : String) : ContactCall → Bool
  | .respond a req _ _ _ => decide (a = approvalId) && req.verb.decides && (tokenCheck lib a req).isOk
  | .revoke _ _ _ _ | .setTrust _ _ _ _ => false

structure Within (lib : ContactLib) (call : ContactCall) (db db' : ContactDb) : Prop where
  onward : Onward db db'
  turns : ∀ a, call.decides lib a = false → turnsOf a db' = turnsOf a db

section Calls

variable (lib : ContactLib)

theorem Steady.turnsOf_eq {db db' : ContactDb} (h : Steady db db') (a : String) : turnsOf a db' = turnsOf a db := by
  rw [turnsOf, h.turns, turnsOf]

theorem within_of_steady {call : ContactCall} {α : Type} {p : Prog ContactDb α} (h : SteadyProg p) :
    p.Moves (Within lib call) :=
  h.weaken fun _ _ hs => ⟨hs.onward, fun a _ => hs.turnsOf_eq a⟩

theorem within_dispatch {call : ContactCall} {turn : AgentTurn} (h : call.decides lib turn.approvalId = true)
    (senderTrust : String) : (dispatchExternalTurn turn senderTrust).Moves (Within lib call) := by
  unfold dispatchExternalTurn
  split
  · exact Prog.moves_ret _
  · refine Prog.moves_atomic fun db => ⟨⟨fun _ => rfl, fun _ h => h⟩, fun a ha => ?_⟩
    have hne : turn.approvalId ≠ a := by
      rintro rfl
      rw [h] at ha
      cases ha
    simp [turnsOf, List.countP_append, hne]

section Respond

variable {lib} {a : String} {req : ApprovalRequest} {o : MapOrder} {now clock : Int} (contact : ColdContact)

theorem within_applyVerdict (verdict : Verdict) (h : (ContactCall.respond a req o now clock).decides lib a = true) :
    (applyVerdict a contact verdict req now clock).Moves (Within lib (.respond a req o now clock)) := by
  unfold applyVerdict
  refine (within_of_steady lib (steady_setTrust _ _ _)).bind fun res => ?_
  split
  · exact Prog.moves_ret _
  refine (within_of_steady lib (steady_commitTrustChanged _ _ _ _ _)).bind fun _ => ?_
  split
  · exact Prog.moves_ret _
  all_goals
    refine (within_of_steady lib (steady_unpark _)).bind fun _ =>
      (within_of_steady lib (steady_read _)).bind fun row => ?_
    cases row with
    | none => exact Prog.moves_ret _
    | some promoted => exact (within_dispatch lib h _).bind fun _ => Prog.moves_ret _

theorem within_claimAsMe (h : (ContactCall.respond a req o now clock).decides lib a = true) :
    (claimAsMe lib o a contact now).Moves (Within lib (.respond a req o now clock)) := by
  unfold claimAsMe
  refine (within_of_steady lib (steady_claimIdentifiers _ _ _)).bind fun _ =>
    (within_of_steady lib (steady_reconcile lib.groups now o)).bind fun _ =>
      (within_of_steady lib (steady_read _)).bind fun row => ?_
  split
  · exact Prog.moves_ret _
  · exact (within_dispatch lib h _).bind fun _ => Prog.moves_ret _

theorem steady_ignoreOnce : SteadyProg (ignoreOnce a contact) :=
  (steady_unpark _).bind fun _ => steady_pure _

theorem within_respondTo (htoken : tokenCheck lib a req = .ok ()) :
    (respondTo lib o a contact req now clock).Moves (Within lib (.respond a req o now clock)) := by
  have hdecides : req.verb.decides = true → (ContactCall.respond a req o now clock).decides lib a = true := by
    intro hverb
    simp [ContactCall.decides, hverb, htoken, Except.isOk, Except.toBool]
  unfold respondTo
  split
  case h_1 hverb => exact within_applyVerdict contact .trust (hdecides (by rw [hverb]; rfl))
  case h_2 hverb => exact within_applyVerdict contact .trustLimited (hdecides (by rw [hverb]; rfl))
  case h_3 hverb => exact within_applyVerdict contact .block (hdecides (by rw [hverb]; rfl))
  case h_4 => exact within_of_steady lib (steady_ignoreOnce contact)
  case h_5 hverb => exact within_claimAsMe contact (hdecides (by rw [hverb]; rfl))
  all_goals exact Prog.moves_ret _

end Respond

theorem within_run (call : ContactCall) : (call.run lib).Moves (Within lib call) := by
  cases call with
  | respond a req o now clock =>
    show (respondHandler lib o a req now clock).Moves _
    unfold respondHandler
    split
    · exact Prog.moves_ret _
    next htoken =>
    refine (within_of_steady lib (steady_read _)).bind fun found => ?_
    split
    · exact Prog.moves_ret _
    refine (within_of_steady lib (steady_read _)).bind fun again => ?_
    split
    · exact Prog.moves_ret _
    · exact within_respondTo _ htoken
  | revoke id reason now clock =>
    exact within_of_steady lib ((steady_revokeHandler _ _ _ _).bind fun _ => steady_pure _)
  | setTrust id req now clock =>
    exact within_of_steady lib ((steady_setTrustHandler _ _ _ _).bind fun _ => steady_pure _)

/-! ### The turn comes last -/

section Last

variable (a : String)

theorem steady_atLast {α β : Type} {p : Prog ContactDb α} {f : α → Prog ContactDb β} (hp : SteadyProg p)
    (hf : ∀ x, (f x).AtLast (turnsOf a)) : (p >>= f).AtLast (turnsOf a) :=
  (hp.weaken fun _ _ hs => hs.turnsOf_eq a).atLast hf

theorem atLast_dispatch {α : Type} (turn : AgentTurn) (senderTrust : String) (x : α) :
    (dispatchExternalTurn turn senderTrust >>= fun _ => (pure x : Prog ContactDb α)).AtLast (turnsOf a) := by
  unfold dispatchExternalTurn
  split
  · exact Prog.atLast_pure x
  · refine Prog.atLast_atomic (fun db => ?_) x
    simp only [turnsOf, List.countP_append, List.countP_singleton]
    split <;> omega

theorem atLast_applyVerdict (approvalId : String) (contact : ColdContact) (verdict : Verdict) (req : ApprovalRequest)
    (now clock : Int) : (applyVerdict approvalId contact verdict req now clock).AtLast (turnsOf a) := by
  unfold applyVerdict
  refine steady_atLast a (steady_setTrust _ _ _) fun res => ?_
  split
  · exact Prog.atLast_pure _
  refine steady_atLast a (steady_commitTrustChanged _ _ _ _ _) fun _ => ?_
  split
  · exact Prog.atLast_pure _
  all_goals
    refine steady_atLast a (steady_unpark _) fun _ => steady_atLast a (steady_read _) fun row => ?_
    split
    · exact Prog.atLast_pure _
    · exact atLast_dispatch a _ _ _

theorem atLast_claimAsMe (o : MapOrder) (approvalId : String) (contact : ColdContact) (now : Int) :
    (claimAsMe lib o approvalId contact now).AtLast (turnsOf a) := by
  unfold claimAsMe
  refine steady_atLast a (steady_claimIdentifiers _ _ _) fun _ =>
    steady_atLast a (steady_reconcile lib.groups now o) fun _ => steady_atLast a (steady_read _) fun row => ?_
  split
  · exact Prog.atLast_pure _
  · exact atLast_dispatch a _ _ _

theorem atLast_run (call : ContactCall) : (call.run lib).AtLast (turnsOf a) := by
  cases call with
  | respond approvalId req o now clock =>
    show (respondHandler lib o approvalId req now clock).AtLast _
    unfold respondHandler
    split
    · exact Prog.atLast_pure _
    refine steady_atLast a (steady_read _) fun found => ?_
    split
    · exact Prog.atLast_pure _
    refine steady_atLast a (steady_read _) fun again => ?_
    split
    · exact Prog.atLast_pure _
    unfold respondTo
    split
    · exact atLast_applyVerdict a _ _ _ _ _ _
    · exact atLast_applyVerdict a _ _ _ _ _ _
    · exact atLast_applyVerdict a _ _ _ _ _ _
    · exact steady_atLast a (steady_unpark _) fun _ => Prog.atLast_pure _
    · exact atLast_claimAsMe lib a _ _ _ _
    all_goals exact Prog.atLast_pure _
  | revoke id reason now clock =>
    exact steady_atLast a (steady_revokeHandler _ _ _ _) fun _ => Prog.atLast_pure _
  | setTrust id req now clock =>
    exact steady_atLast a (steady_setTrustHandler _ _ _ _) fun _ => Prog.atLast_pure _

end Last

/-! ### A response with nothing left to do -/

def phaseOf (cid : String) (db : ContactDb) : Option ConversationPhase :=
  (db.conversations.row cid).map ContactConversation.phase

structure Unmoved (db db' : ContactDb) : Prop where
  principals : db'.principals = db.principals
  phases : ∀ cid, phaseOf cid db' = phaseOf cid db
  events : db'.events = db.events
  dispatched : db'.dispatched = db.dispatched

theorem Unmoved.refl (db : ContactDb) : Unmoved db db := ⟨rfl, fun _ => rfl, rfl, rfl⟩

def ApprovalVerb.Idle (verb : ApprovalVerb) (contact : ColdContact) (db : ContactDb) : Prop :=
  match verb with
  | .trust | .trustLimited | .block => db.principals.get contact.senderPrincipalId = none
  | .ignoreOnce => ∀ row, db.conversations.row contact.conversationId = some row → row.phase = .idle
  | .claimAsMe => False
  | .approve | .edit | .reject => True

def NothingLeft (a : String) (req : ApprovalRequest) (db : ContactDb) : Prop :=
  tokenCheck lib a req = .ok () → ∀ contact, contactOf a db = some contact → req.verb.Idle contact db

def IdleStep (a : String) (req : ApprovalRequest) (met : List ContactDb) (db db' : ContactDb) : Prop :=
  (∀ r ∈ met, Onward r db) → (∀ r ∈ met ++ [db], NothingLeft lib a req r) → Unmoved db db'

section NothingLeft

variable {lib} {a : String} {req : ApprovalRequest}

theorem idleStep_refl (met : List ContactDb) (db : ContactDb) : IdleStep lib a req met db db := fun _ _ => .refl db

def MetWork (a : String) (req : ApprovalRequest) (ss : List ContactDb) : Prop :=
  ∃ contact, ∃ r ∈ ss, contactOf a r = some contact ∧ ∃ s ∈ ss, ¬req.verb.Idle contact s

variable {ss : List ContactDb}

theorem MetWork.step (htoken : tokenCheck lib a req = .ok ()) (h : MetWork a req ss) (rest : List ContactDb)
    (db db' : ContactDb) : IdleStep lib a req (ss ++ rest) db db' := by
  obtain ⟨contact, r, hr, hcontact, s, hs, hidle⟩ := h
  intro honward hleft
  have hsame : contactOf a s = contactOf a r :=
    ((honward s (by simp [hs])).arrivals a).symm.trans ((honward r (by simp [hr])).arrivals a)
  exact absurd (hleft s (by simp [hs]) htoken contact (hsame.trans hcontact)) hidle

theorem tells_of_metWork (htoken : tokenCheck lib a req = .ok ()) {α : Type} (p : Prog ContactDb α)
    (hmet : MetWork a req ss) : p.Tells (IdleStep lib a req) (fun _ _ => True) ss := by
  have h := Prog.tells_of_forall (Q := fun _ _ => True) (fun rest db db' => hmet.step htoken rest db db') (fun _ _ => trivial) p
    []
  rwa [List.append_nil] at h

theorem tells_applyVerdict (htoken : tokenCheck lib a req = .ok ()) {contact : ColdContact} {verdict : Verdict}
    {now clock : Int} {r : ContactDb} (hr : r ∈ ss) (hcontact : contactOf a r = some contact)
    (hverb : ∀ db, req.verb.Idle contact db → db.principals.get contact.senderPrincipalId = none) :
    (applyVerdict a contact verdict req now clock).Tells (IdleStep lib a req) (fun _ _ => True) ss := by
  have hset : (PrincipalStore.setTrust contact.senderPrincipalId (verdict.level req now) clock).Tells (IdleStep lib a req)
      (fun met res => (∃ e, res = .error e) ∨ MetWork a req met) ss := by
    unfold PrincipalStore.setTrust
    refine Prog.tells_read (fun s => idleStep_refl _ s) fun s => ?_
    split
    · exact Prog.tells_pure (.inl ⟨_, rfl⟩)
    next row hrow =>
    have hfound : ∀ rest, MetWork a req (ss ++ [s] ++ rest) := by
      intro rest
      refine ⟨contact, r, by simp [hr], hcontact, s, by simp, fun hidle => ?_⟩
      rw [hverb s hidle] at hrow
      cases hrow
    refine Prog.tells_atomic (fun db => ?_) fun db => Prog.tells_pure (.inr (hfound [db]))
    have hstep := (hfound []).step htoken [] db
    rw [List.append_nil, List.append_nil] at hstep
    exact hstep _
  unfold applyVerdict
  refine Prog.Tells.bind (fun met res hres => ?_) hset
  rcases hres with ⟨e, rfl⟩ | hmet
  · exact Prog.tells_pure trivial
  · exact tells_of_metWork htoken _ hmet

theorem tells_ignoreOnce (htoken : tokenCheck lib a req = .ok ()) (hverb : req.verb = .ignoreOnce)
    {contact : ColdContact} {r : ContactDb} (hr : r ∈ ss) (hcontact : contactOf a r = some contact) :
    (ignoreOnce a contact).Tells (IdleStep lib a req) (fun _ _ => True) ss := by
  have hunpark : (unpark contact.conversationId).Tells (IdleStep lib a req) (fun _ _ => True) ss := by
    unfold unpark
    refine Prog.tells_read (fun s => idleStep_refl _ s) fun s => ?_
    split
    · exact Prog.tells_pure trivial
    next row hrow =>
    refine Prog.tells_atomic (fun db honward hleft => ?_) fun _ => Prog.tells_pure trivial
    obtain ⟨-, hcid⟩ := Keyed.row_iff.1 hrow
    have hdb : contactOf a db = some contact := ((honward r (by simp [hr])).arrivals a).trans hcontact
    have hkept := (honward s (by simp)).conversations contact.conversationId (by rw [hrow]; rfl)
    obtain ⟨found, hfound⟩ := Option.isSome_iff_exists.1 hkept
    have hidle : found.phase = .idle := by
      have hidle := hleft db (by simp) htoken contact hdb
      rw [hverb] at hidle
      exact hidle found hfound
    refine ⟨rfl, fun cid => ?_, rfl, rfl⟩
    by_cases hc : cid = row.conversationId
    · rw [hc, phaseOf, phaseOf, Keyed.row_upsert_self, hcid, hfound]
      simp [conversationChange, Change.apply, hidle]
    · exact congrArg (Option.map _) (Keyed.row_upsert_of_ne db.conversations trivial _ hc)
  exact Prog.Tells.bind (fun _ _ _ => Prog.tells_pure trivial) hunpark

end NothingLeft

theorem idleStep_run (a : String) (req : ApprovalRequest) (o : MapOrder) (now clock : Int) :
    ((ContactCall.respond a req o now clock).run lib).Tells (IdleStep lib a req) (fun _ _ => True) [] := by
  show (respondHandler lib o a req now clock).Tells _ _ _
  unfold respondHandler
  split
  · exact Prog.tells_pure trivial
  next htoken =>
  refine Prog.tells_read (fun s => idleStep_refl _ s) fun s => ?_
  split
  · exact Prog.tells_pure trivial
  refine Prog.tells_read (fun s => idleStep_refl _ s) fun r => ?_
  split
  · exact Prog.tells_pure trivial
  next contact hcontact =>
  have hr : r ∈ [] ++ [s] ++ [r] := by simp
  unfold respondTo
  split
  case h_1 hverb => exact tells_applyVerdict htoken hr hcontact fun db hidle => by rwa [hverb] at hidle
  case h_2 hverb => exact tells_applyVerdict htoken hr hcontact fun db hidle => by rwa [hverb] at hidle
  case h_3 hverb => exact tells_applyVerdict htoken hr hcontact fun db hidle => by rwa [hverb] at hidle
  case h_4 hverb => exact tells_ignoreOnce htoken hverb hr hcontact
  case h_5 hverb =>
    refine tells_of_metWork htoken _ ⟨contact, r, hr, hcontact, r, hr, fun hidle => ?_⟩
    rwa [hverb] at hidle
  all_goals exact Prog.tells_pure trivial

end Calls

end Execlaw
