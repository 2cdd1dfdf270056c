import Execlaw.Decimals
import Execlaw.JsonWrite
import Execlaw.PrincipalMergeRuns
import Execlaw.ReplyDrafts
/-!
# GroupAudiences — who a group reply reaches (`core/src/principal_groups.rs`, `core/src/reply_drafts.rs`)

A group counts the changes of its membership in an epoch.  A reply draft for a group holds the audience as it was when
the draft was written, the epoch included; `validateAudience` compares it with the group.  Whatever calls come in
between, the epoch is the old one exactly if no call changed the member set (`epochs_detect_changes`).
-/
namespace Execlaw

open Table Interleave

/-! ## The code -/

namespace ContactDb

/-- What `add_member` sets on the group. -/
def addedChange (inserted : Bool) (now : Int) : Change PrincipalGroup.groupId (fun _ => True) where
  takes := fun _ => true
  set := fun g => { g with lastActiveAt := now, membershipEpoch := g.membershipEpoch + if inserted then 1 else 0 }
  key_set := fun _ => rfl
  keeps_ok := fun _ _ _ => trivial

def addMember (groupId principalId : String) (now : Int) (db : ContactDb) : ContactDb :=
  let inserted := (db.members.row ⟨groupId, principalId⟩).isNone
  { db with
    members := db.members.insertOrIgnore ⟨groupId, principalId⟩ trivial
    groups := db.groups.update groupId (addedChange inserted now) }

end ContactDb

/-- What `audience_state` reads of the group of a conversation. -/
structure AudienceState where
  groupId : String
  nativeGroupId : Option String
  epoch : Int
  membersSha256 : String
  members : List String

def ContactDb.groupOfConversation (db : ContactDb) (conversationId : String) : Option PrincipalGroup :=
  ((db.conversations.row conversationId).bind ContactConversation.principalGroupId).bind db.groups.row

def audienceState (lib : GroupLib) (conversationId : String) (db : ContactDb) :
    Except DbError (Option AudienceState) :=
  match db.groupOfConversation conversationId with
  | none => .ok none
  | some g =>
    -- a sum past `i64` is a real in SQLite
    if fitsI64 g.membershipEpoch then
      let members := db.membersOf g.groupId
      .ok (some ⟨g.groupId, g.nativeGroupId, g.membershipEpoch, lib.sha256Hex (String.join (members.map (· ++ "\x00"))),
        members⟩)
    else .error (.sqlite "Invalid column type Real at index: 2, name: membership_epoch")

def asI64 : Json → Option Int
  | .num text => if text = "-0" then none else parseI64 text.toList
  | _ => none

def draftAudience (channel recipient : String) (nativeGroup : Option String) (groupName : Option Json) :
    Option AudienceState → Json
  | some s =>
    .obj [("channel", .str channel), ("recipient", .str recipient), ("group_id", nativeGroup.elim .null .str),
      ("group_name", groupName.getD .null), ("principal_group_id", .str s.groupId),
      ("membership_epoch", .num s.epoch.repr), ("members_sha256", .str s.membersSha256),
      ("members", .arr (s.members.map .str)), ("identity_basis", .str "observed_principal_ids")]
  | none =>
    .obj [("channel", .str channel), ("recipient", .str recipient), ("group_id", nativeGroup.elim .null .str),
      ("group_name", groupName.getD .null), ("identity_basis", .str "exact_transport_binding")]

def ContactDb.directlyBound (db : ContactDb) (scope : DraftScope) : Bool :=
  ((db.conversations.row scope.conversationId).bind ContactConversation.principalGroupId).any fun groupId =>
    (db.bindings.row (scope.channel, scope.recipient)).any fun b =>
      decide (b.principalGroupId = groupId) && !b.isGroup

def validateAudience (json : JsonText Json) (lib : GroupLib) (id : String) (drafts : DraftTable) (db : ContactDb) :
    Except DbError Unit :=
  match ReplyDraftStore.get json id drafts with
  | none => .error (.invariant "reply draft not found")
  | some draft =>
    let audience := draft.audience
    if (audience.get "channel").bind Json.asStr ≠ some draft.scope.channel ∨
        (audience.get "recipient").bind Json.asStr ≠ some draft.scope.recipient then
      .error (.invariant "reply draft transport destination changed")
    else
      let nativeGroup := (audience.get "group_id").bind Json.asStr
      if nativeGroup.isNone then
        if db.directlyBound draft.scope then .ok ()
        else .error (.invariant "reply draft recipient identity is no longer bound to this conversation")
      else
        match audienceState lib draft.scope.conversationId db with
        | .error e => .error e
        | .ok none => .error (.invariant "reply draft group audience is unavailable")
        | .ok (some s) =>
          if s.nativeGroupId ≠ nativeGroup ∨
              (audience.get "principal_group_id").bind Json.asStr ≠ some s.groupId ∨
              (audience.get "membership_epoch").bind asI64 ≠ some s.epoch ∨
              (audience.get "members_sha256").bind Json.asStr ≠ some s.membersSha256 then
            .error (.invariant "reply draft audience changed since it was proposed")
          else .ok ()

inductive GroupCall
  | resolve (key : GroupKey) (now : Int)
  | addMember (groupId principalId : String) (now : Int)
  | reconcileMembers (groupId : String) (principals : List String) (includesController : Bool) (now : Int)

/-- **One call**, and what it answers. -/
def groupExec (lib : GroupLib) (db : ContactDb) : GroupCall → Except DbError (Option PrincipalGroup) × ContactDb
  | .resolve key now =>
    let (answer, db) := (PrincipalGroupStore.resolve lib key now).alone db
    (answer.map some, db)
  | .addMember groupId principalId now => (.ok none, db.addMember groupId principalId now)
  | .reconcileMembers groupId principals includesController now =>
    (.ok none, db.reconcileMembers groupId principals includesController now)

/-! ## Member sets -/

namespace ContactDb

def memberSet (db : ContactDb) (groupId : String) : Set String := {pid | db.Member groupId pid}

theorem sortedLT_membersOf (db : ContactDb) (groupId : String) : (db.membersOf groupId).SortedLT := by
  have hrows : db.members.rows.Nodup := by simpa using db.members.unique
  have hnodup : (db.membersOf groupId).Nodup := by
    refine (List.perm_insertionSort _ _).nodup_iff.2 ((hrows.filter _).map_on ?_)
    rintro ⟨g, p⟩ hp ⟨g', p'⟩ hp' rfl
    rw [List.mem_filter, decide_eq_true_eq] at hp hp'
    exact congrArg (GroupMember.mk · p) (hp.2.trans hp'.2.symm)
  exact (pairwise_orderBy id _).sortedLE.sortedLT_of_nodup hnodup

theorem sortedLT_sortedSet (l : List String) : (sortedSet l).SortedLT :=
  ((pairwise_orderBy id l).sublist (List.dedup_sublist _)).sortedLE.sortedLT_of_nodup (List.nodup_dedup _)

theorem membersOf_eq_sortedSet {db : ContactDb} {groupId : String} {l : List String} :
    db.membersOf groupId = sortedSet l ↔ db.memberSet groupId = {pid | pid ∈ l} := by
  rw [Set.ext_iff]
  constructor
  · intro h pid
    exact mem_membersOf.symm.trans (by rw [h, mem_sortedSet]; rfl)
  · intro h
    refine (sortedLT_membersOf db groupId).eq_of_mem_iff (sortedLT_sortedSet l) fun pid => ?_
    rw [mem_membersOf, mem_sortedSet]
    exact h pid

theorem membersOf_congr {db db' : ContactDb} {groupId : String} (h : db'.memberSet groupId = db.memberSet groupId) :
    db'.membersOf groupId = db.membersOf groupId := by
  refine (sortedLT_membersOf db' groupId).eq_of_mem_iff (sortedLT_membersOf db groupId) fun pid => ?_
  rw [mem_membersOf, mem_membersOf]
  exact Set.ext_iff.1 h pid

/-! ## What a call does to a group -/

structure GroupStep (db db' : ContactDb) (g g' : PrincipalGroup) : Prop where
  key : groupKey g' = groupKey g
  controller : g.includesController = true → g'.includesController = true
  epoch : (db'.memberSet g.groupId = db.memberSet g.groupId ∧ g'.membershipEpoch = g.membershipEpoch) ∨
    (db'.memberSet g.groupId ≠ db.memberSet g.groupId ∧ g'.membershipEpoch = g.membershipEpoch + 1)

variable {db db' : ContactDb} {groupId : String} {g : PrincipalGroup}

theorem memberSet_reconcileMembers {principals : List String} {includesController : Bool} {now : Int} (k : String) :
    (db.reconcileMembers groupId principals includesController now).memberSet k =
      if k = groupId then {pid | pid ∈ principals} else db.memberSet k := by
  ext pid
  have hmember : (db.reconcileMembers groupId principals includesController now).Member k pid ↔ _ :=
    member_reconcileMembers
  rw [memberSet, Set.mem_ofPred_eq, hmember]
  split <;> rfl

theorem step_reconcileMembers (hg : db.groups.row g.groupId = some g) (principals : List String)
    (includesController : Bool) (now : Int) :
    ∃ g', (db.reconcileMembers groupId principals includesController now).groups.row g.groupId = some g' ∧
      GroupStep db (db.reconcileMembers groupId principals includesController now) g g' := by
  have hset := @memberSet_reconcileMembers db groupId principals includesController now g.groupId
  by_cases hk : g.groupId = groupId
  · subst hk
    rw [if_pos rfl] at hset
    refine ⟨_, (Keyed.row_update_self _ _ _).trans (congrArg (Option.map _) hg), rfl, fun hc => ?_, ?_⟩
    · simp [Change.apply, touchChange, hc]
    · rw [hset]
      by_cases hsame : db.membersOf g.groupId = sortedSet principals
      · refine .inl ⟨(membersOf_eq_sortedSet.1 hsame).symm, ?_⟩
        simp [Change.apply, touchChange, hsame]
      · refine .inr ⟨fun heq => hsame (membersOf_eq_sortedSet.2 heq.symm), ?_⟩
        simp [Change.apply, touchChange, hsame]
  · rw [if_neg hk] at hset
    exact ⟨g, (row_reconcileMembers_of_ne hk).trans hg, rfl, id, .inl ⟨hset, rfl⟩⟩

theorem member_addMember {principalId : String} {now : Int} {k pid : String} :
    (db.addMember groupId principalId now).Member k pid ↔ db.Member k pid ∨ k = groupId ∧ pid = principalId := by
  have hiff : ∀ t : Keyed (id : GroupMember → GroupMember) (fun _ => True),
      (⟨k, pid⟩ : GroupMember) ∈ t.rows ↔ (t.row ⟨k, pid⟩).isSome = true := by
    intro t
    rw [Option.isSome_iff_exists]
    constructor
    · exact fun h => ⟨_, Keyed.row_iff.2 ⟨h, rfl⟩⟩
    · rintro ⟨r, hr⟩
      obtain rfl : r = ⟨k, pid⟩ := Keyed.key_of_row hr
      exact (Keyed.row_iff.1 hr).1
  unfold addMember Member
  rw [hiff, hiff, Keyed.row_insertOrIgnore (r := (⟨groupId, principalId⟩ : GroupMember)) trivial]
  cases db.members.row ⟨k, pid⟩ with
  | some r => simp
  | none =>
    rw [Option.none_or]
    split
    · next h =>
      obtain ⟨rfl, rfl⟩ := GroupMember.mk.inj h
      simp
    · next h =>
      refine ⟨nofun, ?_⟩
      rintro (h' | ⟨rfl, rfl⟩)
      · cases h'
      · exact absurd rfl h

theorem step_addMember (hg : db.groups.row g.groupId = some g) (principalId : String) (now : Int) :
    ∃ g', (db.addMember groupId principalId now).groups.row g.groupId = some g' ∧
      GroupStep db (db.addMember groupId principalId now) g g' := by
  by_cases hk : g.groupId = groupId
  · subst hk
    refine ⟨_, (Keyed.row_update_self _ _ _).trans (congrArg (Option.map _) hg), rfl, id, ?_⟩
    by_cases hm : db.Member g.groupId principalId
    · have hrow : db.members.row ⟨g.groupId, principalId⟩ = some ⟨g.groupId, principalId⟩ := Keyed.row_iff.2 ⟨hm, rfl⟩
      refine .inl ⟨Set.ext fun pid => member_addMember.trans ?_, by simp [Change.apply, addedChange, hrow]⟩
      refine or_iff_left_of_imp ?_
      rintro ⟨-, rfl⟩
      exact hm
    · have hrow : db.members.row ⟨g.groupId, principalId⟩ = none := by
        refine Option.eq_none_iff_forall_ne_some.2 fun r hr => hm ?_
        obtain rfl : r = ⟨g.groupId, principalId⟩ := Keyed.key_of_row hr
        exact (Keyed.row_iff.1 hr).1
      refine .inr ⟨fun heq => hm ?_, by simp [Change.apply, addedChange, hrow]⟩
      exact (Set.ext_iff.1 heq principalId).1 (member_addMember.2 (.inr ⟨rfl, rfl⟩))
  · refine ⟨g, (Keyed.row_update_of_ne _ hk _).trans hg, rfl, id, .inl ⟨Set.ext fun pid => ?_, rfl⟩⟩
    exact member_addMember.trans (or_iff_left fun h => hk h.1)

theorem insertGroup_keeps {lib : GroupLib} {key : GroupKey} {now : Int} (hg : db.groups.row groupId = some g) :
    (db.insertGroup lib key now).2.groups.row groupId = some g ∧
      (db.insertGroup lib key now).2.members = db.members := by
  unfold insertGroup
  dsimp only
  split
  · exact ⟨hg, rfl⟩
  split
  · exact ⟨hg, rfl⟩
  next groups hins =>
  refine ⟨?_, rfl⟩
  rw [(Keyed.insert?_eq_some hins).2, hg, Option.some_or]

end ContactDb

open ContactDb

section Resolve

variable {lib : GroupLib} {key : GroupKey} {now : Int} {db : ContactDb} {g : PrincipalGroup}

def settleGroup (key : GroupKey) (now : Int) (groupId : String) (db : ContactDb) :
    Except DbError PrincipalGroup × ContactDb :=
  let db := db.reconcileMembers groupId key.principals key.includesController now
  (((db.groups.row groupId).map Except.ok).getD (.error (.sqlite "Query returned no rows")), db)

theorem resolve_alone (lib : GroupLib) (key : GroupKey) (now : Int) (db : ContactDb) :
    (PrincipalGroupStore.resolve lib key now).alone db =
      match db.groupOf lib key with
      | some g => settleGroup key now g.groupId db
      | none =>
        match db.insertGroup lib key now with
        | (.ok groupId, db) => settleGroup key now groupId db
        | (.error e, db) => (.error e, db) := by
  have hend : ∀ (groupId : String) (db : ContactDb), (do
        Prog.atomic fun db => ((), db.reconcileMembers groupId key.principals key.includesController now)
        match ← Prog.read fun db => db.groups.row groupId with
        | none => pure (.error (.sqlite "Query returned no rows"))
        | some g => pure (.ok g) : Prog ContactDb (Except DbError PrincipalGroup)).alone db =
      settleGroup key now groupId db := by
    intro groupId db
    rw [Prog.alone_bind, Prog.alone_atomic, Prog.alone_bind, Prog.alone_read]
    dsimp only [settleGroup]
    cases (db.reconcileMembers groupId key.principals key.includesController now).groups.row groupId <;> rfl
  unfold PrincipalGroupStore.resolve
  rw [Prog.alone_bind, Prog.alone_read]
  cases db.groupOf lib key with
  | some g => exact hend g.groupId db
  | none =>
    rw [Prog.alone_bind, Prog.alone_atomic]
    rcases db.insertGroup lib key now with ⟨e | groupId, db'⟩
    · rfl
    · exact hend groupId db'

theorem step_resolve (hg : db.groups.row g.groupId = some g) :
    ∃ g', ((PrincipalGroupStore.resolve lib key now).alone db).2.groups.row g.groupId = some g' ∧
      GroupStep db ((PrincipalGroupStore.resolve lib key now).alone db).2 g g' := by
  rw [resolve_alone]
  cases db.groupOf lib key with
  | some f => exact step_reconcileMembers hg _ _ _
  | none =>
    -- the insertion touches no group there is
    obtain ⟨hrow, hmembers⟩ := @insertGroup_keeps _ _ _ lib key now hg
    have hset : (db.insertGroup lib key now).2.memberSet g.groupId = db.memberSet g.groupId := by
      unfold memberSet Member
      rw [hmembers]
    rcases hins : db.insertGroup lib key now with ⟨e | groupId, db'⟩
    · rw [hins] at hrow hset
      exact ⟨g, hrow, rfl, id, .inl ⟨hset, rfl⟩⟩
    · rw [hins] at hrow hset
      obtain ⟨g', hg', hstep⟩ := @step_reconcileMembers _ groupId _ hrow key.principals key.includesController now
      refine ⟨g', hg', hstep.key, hstep.controller, ?_⟩
      have hepoch := hstep.epoch
      rwa [hset] at hepoch

end Resolve

section Runs

variable {lib : GroupLib} {db : ContactDb} {g : PrincipalGroup}

theorem groupExec_step (c : GroupCall) (hg : db.groups.row g.groupId = some g) :
    ∃ g', (groupExec lib db c).2.groups.row g.groupId = some g' ∧ GroupStep db (groupExec lib db c).2 g g' := by
  cases c with
  | resolve key now => exact step_resolve hg
  | addMember groupId principalId now => exact step_addMember hg principalId now
  | reconcileMembers groupId principals includesController now => exact step_reconcileMembers hg _ _ _

theorem group_after {calls : List GroupCall} (hg : db.groups.row g.groupId = some g) :
    ∃ g', (Calls.after (groupExec lib) db calls).groups.row g.groupId = some g' ∧ groupKey g' = groupKey g ∧
      (g.includesController = true → g'.includesController = true) ∧ g.membershipEpoch ≤ g'.membershipEpoch ∧
      (g'.membershipEpoch = g.membershipEpoch ↔ ∀ mid, mid <+: calls →
        (Calls.after (groupExec lib) db mid).memberSet g.groupId = db.memberSet g.groupId) := by
  induction calls generalizing db g with
  | nil =>
    refine ⟨g, hg, rfl, id, le_refl _, fun _ mid hmid => ?_, fun _ => rfl⟩
    rw [List.prefix_nil.1 hmid]
    rfl
  | cons c calls ih =>
    obtain ⟨g₁, hg₁, hstep⟩ := @groupExec_step lib _ _ c hg
    have hid : g₁.groupId = g.groupId := Keyed.key_of_row hg₁
    rw [← hid] at hg₁
    obtain ⟨g', hg', hkey, hcontroller, hle, hepoch⟩ := ih hg₁
    rw [hid] at hg' hepoch
    refine ⟨g', hg', hkey.trans hstep.key, hcontroller ∘ hstep.controller, ?_, ?_⟩
    · rcases hstep.epoch with ⟨-, h⟩ | ⟨-, h⟩ <;> omega
    · rcases hstep.epoch with ⟨hsame, h⟩ | ⟨hother, h⟩
      · rw [← h, hepoch]
        constructor
        · intro hall mid hmid
          cases mid with
          | nil => rfl
          | cons d mid =>
            obtain ⟨rfl, hrest⟩ := List.cons_prefix_cons.1 hmid
            exact (hall mid hrest).trans hsame
        · exact fun hall mid hmid => (hall (c :: mid) (List.cons_prefix_cons.2 ⟨rfl, hmid⟩)).trans hsame.symm
      · refine ⟨fun heq => by omega, fun hall => absurd (hall [c] ?_) hother⟩
        exact List.cons_prefix_cons.2 ⟨rfl, List.nil_prefix⟩

/-! ## The group of a key -/

def Indexed (db : ContactDb) : Prop :=
  ∀ g ∈ db.groups.rows, ∀ g' ∈ db.groups.rows, clashes g g' = true → g.groupId = g'.groupId

theorem clashes_congr {f f' : PrincipalGroup} (hf : groupKey f = groupKey g) {h : PrincipalGroup}
    (hf' : groupKey f' = groupKey h) : clashes f f' = clashes g h := by
  simp only [groupKey, Prod.mk.injEq] at hf hf'
  simp only [clashes, hf, hf']

theorem Indexed.update (h : Indexed db) (groupId : String) (c : Change PrincipalGroup.groupId (fun _ => True))
    (hc : ∀ g, groupKey (c.apply g) = groupKey g) {db' : ContactDb} (hdb' : db'.groups = db.groups.update groupId c) :
    Indexed db' := by
  -- every row is an old row with its key
  have hold : ∀ f ∈ db'.groups.rows, ∃ f₀ ∈ db.groups.rows, f₀.groupId = f.groupId ∧ groupKey f₀ = groupKey f := by
    intro f hf
    rw [hdb'] at hf
    obtain ⟨f₀, hf₀, hid, ⟨-, rfl⟩ | ⟨-, rfl⟩⟩ := Keyed.mem_update hf
    · exact ⟨f, hf₀, hid, rfl⟩
    · exact ⟨f₀, hf₀, hid, (hc f₀).symm⟩
  intro f hf f' hf' hclash
  obtain ⟨f₀, hf₀, hid, hkey⟩ := hold f hf
  obtain ⟨f₀', hf₀', hid', hkey'⟩ := hold f' hf'
  rw [← hid, ← hid']
  exact h f₀ hf₀ f₀' hf₀' ((clashes_congr hkey hkey').trans hclash)

theorem clashes_comm (f f' : PrincipalGroup) : clashes f f' = clashes f' f := by
  simp only [clashes, decide_eq_decide]
  constructor <;> rintro ⟨hc, hn, hh⟩ <;> exact ⟨hc.symm, hn.symm, fun h => (hh (hn.trans h)).symm⟩

theorem Indexed.insertGroup (h : Indexed db) (key : GroupKey) (now : Int) : Indexed (db.insertGroup lib key now).2 := by
  unfold ContactDb.insertGroup
  dsimp only
  split
  · exact h
  next hfree =>
  split
  · exact h
  next groups hins =>
  rw [Bool.not_eq_true, List.any_eq_false] at hfree
  intro f hf f' hf' hclash
  rw [Keyed.rows_insert? hins, List.mem_append, List.mem_singleton] at hf hf'
  rcases hf with hf | rfl <;> rcases hf' with hf' | rfl
  · exact h f hf f' hf' hclash
  · exact absurd ((clashes_comm _ _).trans hclash) (hfree f hf)
  · exact absurd hclash (hfree f' hf')
  · rfl

theorem Indexed.reconcileMembers (h : Indexed db) (groupId : String) (principals : List String)
    (includesController : Bool) (now : Int) :
    Indexed (db.reconcileMembers groupId principals includesController now) :=
  h.update groupId _ (fun _ => rfl) rfl

theorem Indexed.groupExec (h : Indexed db) (c : GroupCall) : Indexed (groupExec lib db c).2 := by
  cases c with
  | addMember groupId principalId now => exact h.update groupId _ (fun _ => rfl) rfl
  | reconcileMembers groupId principals includesController now => exact h.reconcileMembers _ _ _ _
  | resolve key now =>
    simp only [Execlaw.groupExec, resolve_alone]
    cases db.groupOf lib key with
    | some f => exact h.reconcileMembers _ _ _ _
    | none =>
      have hins := @Indexed.insertGroup lib _ h key now
      rcases hcase : db.insertGroup lib key now with ⟨e | groupId, db'⟩
      · rwa [hcase] at hins
      · rw [hcase] at hins
        exact hins.reconcileMembers _ _ _ _

def KeyOf (lib : GroupLib) (key : GroupKey) (g : PrincipalGroup) : Prop :=
  g.channel = key.channel ∧ g.nativeGroupId = key.nativeGroupId ∧
    (key.nativeGroupId = none → g.principalSetHash = principalSetHash lib key.principals)

variable {key : GroupKey}

theorem keyOf_of_groupOf (h : db.groupOf lib key = some g) : KeyOf lib key g ∧ g ∈ db.groups.rows := by
  refine ⟨?_, List.mem_of_find?_eq_some h⟩
  have hp := List.find?_some h
  cases hnative : key.nativeGroupId with
  | none =>
    rw [hnative, decide_eq_true_eq] at hp
    exact ⟨hp.1, hp.2.2.trans hnative.symm, fun _ => hp.2.1⟩
  | some native =>
    rw [hnative, decide_eq_true_eq] at hp
    exact ⟨hp.1, hp.2.trans hnative.symm, fun h => by rw [hnative] at h; cases h⟩

theorem groupOf_of_keyOf (h : Indexed db) (hkey : KeyOf lib key g) (hg : g ∈ db.groups.rows) :
    db.groupOf lib key = some g := by
  have hfound : (db.groupOf lib key).isSome = true := by
    refine List.find?_isSome.2 ⟨g, hg, ?_⟩
    obtain ⟨hchannel, hnative, hhash⟩ := hkey
    cases hn : key.nativeGroupId with
    | none => exact decide_eq_true ⟨hchannel, hhash hn, hnative.trans hn⟩
    | some native => exact decide_eq_true ⟨hchannel, hnative.trans hn⟩
  obtain ⟨f, hf⟩ := Option.isSome_iff_exists.1 hfound
  obtain ⟨⟨hchannel, hnative, hhash⟩, hmem⟩ := keyOf_of_groupOf hf
  have hclash : clashes f g = true := by
    refine decide_eq_true ⟨hchannel.trans hkey.1.symm, hnative.trans hkey.2.1.symm, fun hn => ?_⟩
    have hnone : key.nativeGroupId = none := hnative.symm.trans hn
    exact (hhash hnone).trans (hkey.2.2 hnone).symm
  have hid := h f hmem g hg hclash
  have hrow : db.groups.row g.groupId = some f := Keyed.row_iff.2 ⟨hmem, hid⟩
  rw [hf, ← hrow]
  exact Keyed.row_iff.2 ⟨hg, rfl⟩

theorem keyOf_congr {f : PrincipalGroup} (h : groupKey f = groupKey g) (hg : KeyOf lib key g) : KeyOf lib key f := by
  simp only [groupKey, Prod.mk.injEq] at h
  exact ⟨h.1.trans hg.1, h.2.1.trans hg.2.1, fun hn => h.2.2.trans (hg.2.2 hn)⟩

variable {now : Int}

theorem settleGroup_row (hg : db.groups.row g.groupId = some g) :
    ∃ g', settleGroup key now g.groupId db =
        (.ok g', db.reconcileMembers g.groupId key.principals key.includesController now) ∧
      (db.reconcileMembers g.groupId key.principals key.includesController now).groups.row g.groupId = some g' ∧
      groupKey g' = groupKey g := by
  obtain ⟨g', hg', hstep⟩ := @step_reconcileMembers _ g.groupId _ hg key.principals key.includesController now
  refine ⟨g', ?_, hg', hstep.key⟩
  simp only [settleGroup, hg', Option.map_some, Option.getD_some]

theorem insertGroup_row {groupId : String} {db' : ContactDb} (h : db.insertGroup lib key now = (.ok groupId, db')) :
    ∃ f, db'.groups.row f.groupId = some f ∧ f.groupId = groupId ∧
      KeyOf lib key f := by
  unfold ContactDb.insertGroup at h
  dsimp only at h
  split at h
  · cases h
  split at h
  · cases h
  next groups hins =>
  obtain ⟨hok, rfl⟩ := Prod.mk.inj h
  obtain ⟨hnone, hrows⟩ := Keyed.insert?_eq_some hins
  refine ⟨⟨lib.uuid db.minted, key.channel, key.nativeGroupId, principalSetHash lib key.principals,
    key.includesController, now, now, 0⟩, ?_, Except.ok.inj hok, rfl, rfl, fun _ => rfl⟩
  rw [hrows, hnone, Option.none_or, if_pos rfl]

theorem keyOf_of_resolve (h : (groupExec lib db (.resolve key now)).1 = .ok (some g)) :
    (groupExec lib db (.resolve key now)).2.groups.row g.groupId = some g ∧ KeyOf lib key g := by
  simp only [groupExec, resolve_alone] at h ⊢
  cases hfound : db.groupOf lib key with
  | some f =>
    rw [hfound] at h
    obtain ⟨hkey, hmem⟩ := keyOf_of_groupOf hfound
    obtain ⟨g', hanswer, hrow, hkey'⟩ := @settleGroup_row _ _ key now (Keyed.row_iff.2 ⟨hmem, rfl⟩)
    simp only [hanswer, Except.map, Except.ok.injEq, Option.some.injEq] at h ⊢
    obtain rfl := h
    have hid : g'.groupId = f.groupId := Keyed.key_of_row hrow
    exact ⟨by rw [hid]; exact hrow, keyOf_congr hkey' hkey⟩
  | none =>
    rw [hfound] at h
    rcases hins : db.insertGroup lib key now with ⟨e | groupId, db'⟩
    · rw [hins] at h
      cases h
    · rw [hins] at h
      obtain ⟨f, hf, rfl, hkey⟩ := insertGroup_row hins
      obtain ⟨g', hanswer, hrow, hkey'⟩ := @settleGroup_row _ _ key now hf
      simp only [hanswer, Except.map, Except.ok.injEq, Option.some.injEq] at h ⊢
      obtain rfl := h
      have hid : g'.groupId = f.groupId := Keyed.key_of_row hrow
      exact ⟨by rw [hid]; exact hrow, keyOf_congr hkey' hkey⟩

theorem resolve_of_keyOf (h : Indexed db) (hkey : KeyOf lib key g) (hg : db.groups.row g.groupId = some g) :
    ∃ g', (groupExec lib db (.resolve key now)).1 = .ok (some g') ∧ g'.groupId = g.groupId := by
  obtain ⟨g', hanswer, hrow, -⟩ := @settleGroup_row _ _ key now hg
  refine ⟨g', ?_, Keyed.key_of_row hrow⟩
  simp only [groupExec, resolve_alone, groupOf_of_keyOf h hkey (Keyed.row_iff.1 hg).1, hanswer, Except.map]

def SameGroup (key key' : GroupKey) : Prop :=
  key'.channel = key.channel ∧ key'.nativeGroupId = key.nativeGroupId ∧
    (key.nativeGroupId = none → ∀ pid, pid ∈ key'.principals ↔ pid ∈ key.principals)

theorem keyOf_of_sameGroup {key key' : GroupKey} (h : SameGroup key key') (hg : KeyOf lib key g) :
    KeyOf lib key' g := by
  refine ⟨hg.1.trans h.1.symm, hg.2.1.trans h.2.1.symm, fun hn => ?_⟩
  have hnone := h.2.1.symm.trans hn
  have hset : sortedSet key'.principals = sortedSet key.principals := by
    refine (sortedLT_sortedSet _).eq_of_mem_iff (sortedLT_sortedSet _) fun pid => ?_
    rw [mem_sortedSet, mem_sortedSet]
    exact h.2.2 hnone pid
  rw [hg.2.2 hnone, principalSetHash, principalSetHash, hset]

theorem indexed_after (h : Indexed db) (calls : List GroupCall) : Indexed (Calls.after (groupExec lib) db calls) :=
  Calls.after_invariant (fun _ c hdb => hdb.groupExec c) h calls

/-! ## The audience of a draft -/

theorem groupExec_conversations (c : GroupCall) : (groupExec lib db c).2.conversations = db.conversations := by
  cases c with
  | addMember groupId principalId now | reconcileMembers groupId principals includesController now => rfl
  | resolve key now =>
    simp only [groupExec, resolve_alone]
    cases db.groupOf lib key with
    | some f => rfl
    | none =>
      rcases hins : db.insertGroup lib key now with ⟨e | groupId, db'⟩
      · simp only
        unfold ContactDb.insertGroup at hins
        dsimp only at hins
        split at hins
        · exact (congrArg (ContactDb.conversations ∘ Prod.snd) hins).symm
        split at hins
        · exact (congrArg (ContactDb.conversations ∘ Prod.snd) hins).symm
        · cases hins
      · exact (insertGroup_ok hins).2.2.2.2.2.2

theorem after_conversations (calls : List GroupCall) :
    (Calls.after (groupExec lib) db calls).conversations = db.conversations :=
  Calls.after_invariant (I := fun db' : ContactDb => db'.conversations = db.conversations)
    (fun _ c h => (groupExec_conversations c).trans h) rfl calls

variable {snap : AudienceState} {json : JsonText Json}

theorem validateAudience_group {id : String} {drafts : DraftTable} {r : ReplyDraftRow} {name : Option Json}
    {native : String} (hr : drafts.row id = some r)
    (haudience : json.toString (draftAudience r.scope.channel r.scope.recipient (some native) name (some snap)) =
      .ok r.audienceJson) (hfits : fitsI64 snap.epoch = true) :
    validateAudience json lib id drafts db = .ok () ↔ ∃ now,
      audienceState lib r.scope.conversationId db = .ok (some now) ∧ now.nativeGroupId = some native ∧
      now.groupId = snap.groupId ∧ now.epoch = snap.epoch ∧ now.membersSha256 = snap.membersSha256 := by
  have hepoch : asI64 (.num snap.epoch.repr) = some snap.epoch := by
    rw [asI64, if_neg, parseI64_repr hfits]
    intro h
    have hparse := parseI64_repr hfits
    rw [h] at hparse
    have hzero : snap.epoch = 0 := (Option.some.inj hparse).symm
    rw [hzero] at h
    exact absurd h (by decide)
  have hget : ReplyDraftStore.get json id drafts = some (ReplyDraftStore.mapDraft json r) := by
    rw [ReplyDraftStore.get, hr, Option.map_some]
  have hvalue : (ReplyDraftStore.mapDraft json r).audience =
      draftAudience r.scope.channel r.scope.recipient (some native) name (some snap) := by
    rw [ReplyDraftStore.mapDraft, json.reads _ _ haudience, Option.getD_some]
  have hscope : (ReplyDraftStore.mapDraft json r).scope = r.scope := rfl
  rw [validateAudience, hget]
  dsimp only
  rw [hvalue, hscope]
  simp only [draftAudience, Json.get, List.find?, Option.map_some, Option.bind_some, Json.asStr, beq_self_eq_true,
    Option.elim_some, String.reduceBEq, hepoch, ne_eq, not_true_eq_false, or_self, if_false, Option.isNone_some,
    Bool.false_eq_true, Option.some.injEq]
  cases audienceState lib r.scope.conversationId db with
  | error e => simp
  | ok state =>
    cases state with
    | none => simp
    | some now => simp [eq_comm]

/-! ## Epochs detect every change -/

/-- **What the epochs promise** of the calls from a state on. -/
structure EpochLaws (json : JsonText Json) (lib : GroupLib) (db : ContactDb) : Prop where
  counted : ∀ calls c g, (Calls.after (groupExec lib) db calls).groups.row g.groupId = some g →
    ∃ g', (Calls.after (groupExec lib) db (calls ++ [c])).groups.row g.groupId = some g' ∧
      ((Calls.after (groupExec lib) db (calls ++ [c])).memberSet g.groupId ≠
        (Calls.after (groupExec lib) db calls).memberSet g.groupId → g.membershipEpoch < g'.membershipEpoch) ∧
      ((Calls.after (groupExec lib) db (calls ++ [c])).memberSet g.groupId =
        (Calls.after (groupExec lib) db calls).memberSet g.groupId → g'.membershipEpoch = g.membershipEpoch) ∧
      (g.includesController = true → g'.includesController = true)
  resolved : ∀ calls key now g later key' now', SameGroup key key' →
    (groupExec lib (Calls.after (groupExec lib) db calls) (.resolve key now)).1 = .ok (some g) →
    ∃ g', (groupExec lib (Calls.after (groupExec lib) db (calls ++ .resolve key now :: later))
        (.resolve key' now')).1 = .ok (some g') ∧ g'.groupId = g.groupId
  validated : ∀ calls later id drafts r native name snap, drafts.row id = some r →
    audienceState lib r.scope.conversationId (Calls.after (groupExec lib) db calls) = .ok (some snap) →
    snap.nativeGroupId = some native →
    json.toString (draftAudience r.scope.channel r.scope.recipient (some native) name (some snap)) =
      .ok r.audienceJson →
    (validateAudience json lib id drafts (Calls.after (groupExec lib) db (calls ++ later)) = .ok () ↔
      ∀ mid, mid <+: later → (Calls.after (groupExec lib) db (calls ++ mid)).memberSet snap.groupId =
        (Calls.after (groupExec lib) db calls).memberSet snap.groupId)

theorem audienceState_some {conversationId : String} (h : audienceState lib conversationId db = .ok (some snap)) :
    ∃ g, db.groupOfConversation conversationId = some g ∧ db.groups.row g.groupId = some g ∧
      fitsI64 g.membershipEpoch = true ∧ snap.groupId = g.groupId ∧ snap.nativeGroupId = g.nativeGroupId ∧
      snap.epoch = g.membershipEpoch := by
  unfold audienceState at h
  split at h
  · cases h
  next g hg =>
  split at h
  · next hfits =>
    cases h
    obtain ⟨groupId, -, hrow⟩ := Option.bind_eq_some_iff.1 hg
    obtain rfl : g.groupId = groupId := Keyed.key_of_row hrow
    exact ⟨g, hg, hrow, hfits, rfl, rfl, rfl⟩
  · cases h

theorem validateAudience_after {later : List GroupCall} {id : String} {drafts : DraftTable} {r : ReplyDraftRow}
    {name : Option Json} {native : String} (hr : drafts.row id = some r)
    (hsnap : audienceState lib r.scope.conversationId db = .ok (some snap)) (hnative : snap.nativeGroupId = some native)
    (haudience : json.toString (draftAudience r.scope.channel r.scope.recipient (some native) name (some snap)) = .ok
      r.audienceJson) :
    validateAudience json lib id drafts (Calls.after (groupExec lib) db later) = .ok () ↔ ∀ mid, mid <+: later →
      (Calls.after (groupExec lib) db mid).memberSet snap.groupId = db.memberSet snap.groupId := by
  obtain ⟨g, hconv, hrow, hfits, hid, hnat, hepoch⟩ := audienceState_some hsnap
  obtain ⟨g', hg', hkey, -, -, hiff⟩ := @group_after lib _ _ later hrow
  have hid' : g'.groupId = g.groupId := Keyed.key_of_row hg'
  have hnat' : g'.nativeGroupId = g.nativeGroupId := congrArg (Prod.fst ∘ Prod.snd) hkey
  -- the conversation is bound to the same group
  have hconv' : (Calls.after (groupExec lib) db later).groupOfConversation r.scope.conversationId = some g' := by
    obtain ⟨groupId, hbound, hgroup⟩ := Option.bind_eq_some_iff.1 hconv
    obtain rfl : g.groupId = groupId := Keyed.key_of_row hgroup
    rw [ContactDb.groupOfConversation, after_conversations, hbound]
    exact hg'
  rw [validateAudience_group hr haudience (hepoch ▸ hfits), hid, ← hiff]
  constructor
  · rintro ⟨now, hnow, -, -, hsame, -⟩
    obtain ⟨f, hf, -, -, -, -, hnowEpoch⟩ := audienceState_some hnow
    obtain rfl : g' = f := Option.mem_unique hconv' hf
    rw [← hnowEpoch, hsame, hepoch]
  · intro heq
    have hmembers := membersOf_congr (hiff.1 heq later List.prefix_rfl)
    have hnow : audienceState lib r.scope.conversationId (Calls.after (groupExec lib) db later) = .ok (some snap) := by
      rw [← hsnap, audienceState, audienceState, hconv', hconv]
      dsimp only
      rw [heq, hid', hnat', hmembers]
    exact ⟨snap, hnow, hnative, hid, rfl, rfl⟩

/-- **Epochs detect every change of membership**, also one that was undone again. -/
theorem epochs_detect_changes (json : JsonText Json) (lib : GroupLib) {db : ContactDb} (hdb : Indexed db) :
    EpochLaws json lib db where
  counted := by
    intro calls c g hg
    obtain ⟨g', hg', hstep⟩ := @groupExec_step lib _ _ c hg
    rw [Calls.after_snoc]
    refine ⟨g', hg', fun hother => ?_, fun hsame => ?_, hstep.controller⟩
    · rcases hstep.epoch with ⟨hsame, -⟩ | ⟨-, h⟩
      · exact absurd hsame hother
      · omega
    · rcases hstep.epoch with ⟨-, h⟩ | ⟨hother, -⟩
      · exact h
      · exact absurd hsame hother
  resolved := by
    intro calls key now g later key' now' hsame hanswer
    obtain ⟨hrow, hkey⟩ := keyOf_of_resolve hanswer
    obtain ⟨g', hg', hkey', -⟩ := @group_after lib _ _ later hrow
    have hid : g'.groupId = g.groupId := Keyed.key_of_row hg'
    rw [Calls.after_append, Calls.after_cons]
    rw [← hid] at hg' ⊢
    exact resolve_of_keyOf (indexed_after ((indexed_after hdb calls).groupExec _) later)
      (keyOf_of_sameGroup hsame (keyOf_congr hkey' hkey)) hg'
  validated := by
    intro calls later id drafts r native name snap hr hsnap hnative haudience
    rw [Calls.after_append, validateAudience_after hr hsnap hnative haudience]
    simp only [Calls.after_append]

theorem create_row {input : NewReplyDraft Json} {t : DraftTable} {audienceJson : String} (hnew : t.row input.id = none)
    (hcomplete : ReplyDraftStore.complete input = true) (hjson : json.toString input.audience = .ok audienceJson) :
    (ReplyDraftStore.create json input t).2.row input.id = some (ReplyDraftStore.newDraft input audienceJson) := by
  unfold ReplyDraftStore.create
  rw [hcomplete, hjson]
  change Keyed.row (t.insertOrIgnore (ReplyDraftStore.newDraft input audienceJson) trivial) input.id = _
  rw [Keyed.row_insertOrIgnore (r := ReplyDraftStore.newDraft input audienceJson) trivial, hnew]
  exact if_pos rfl

end Runs

/-! ## There and back -/

open Classical in
/-- Columns as `serde_json` writes them: a text read back is the text of a value. -/
noncomputable def serdeText : JsonText Json where
  toString := fun v => if v.Value then .ok (String.ofList v.write) else .error "not a value"
  fromStr := fun s => if h : ∃ v : Json, v.Value ∧ String.ofList v.write = s then some h.choose else none
  null := .null
  reads := by
    intro v s hs
    split at hs
    · next hv =>
      have hex : ∃ v : Json, v.Value ∧ String.ofList v.write = s := ⟨v, hv, Except.ok.inj hs⟩
      rw [dif_pos hex]
      have htext := hex.choose_spec.2.trans (Except.ok.inj hs).symm
      exact congrArg some (Json.write_inj hex.choose_spec.1 hv (String.ofList_injective htext))
    · cases hs

def sampleGroup : PrincipalGroup := ⟨"g", "whatsapp", some "group@g.us", "", false, 1, 1, 0⟩

def sampleAudienceDb : ContactDb :=
  { ContactDb.empty with
    groups := ContactDb.empty.groups.insertOrIgnore sampleGroup trivial
    members := ContactDb.empty.members.insertOrIgnore ⟨"g", "a"⟩ trivial
    conversations := ContactDb.empty.conversations.insertOrIgnore ⟨"chat", .idle, "", some "g", 1⟩ trivial }

def sampleAudienceState : AudienceState := ⟨"g", some "group@g.us", 0, "a\x00", ["a"]⟩

def sampleAudience : Json :=
  draftAudience "whatsapp" "group@g.us" (some "group@g.us") none (some sampleAudienceState)

def groupDraft : NewReplyDraft Json :=
  ⟨"draft", "agent", "run", ⟨"chat", "whatsapp", "group@g.us"⟩, some "msg", some 7, sampleAudience, "Camper?",
    "Please send dates.", 12⟩

noncomputable def groupDrafts : DraftTable := (ReplyDraftStore.create serdeText groupDraft .empty).2

theorem sampleAudience_value : sampleAudience.Value := by
  have hnum : Json.Value (.num (0 : Int).repr) := .num (by decide) (List.forall_mem_singleton.2 (by decide))
  have hmembers : Json.Value (.arr [.str "a"]) := .arr (by simpa using Json.Value.str "a")
  refine .obj (by decide) ?_
  simp only [List.forall_mem_cons]
  exact ⟨.str _, .str _, .str _, .null, .str _, hnum, .str _, hmembers, .str _, nofun⟩

/-- **A member who came and went again is seen**: the draft of before is refused. -/
theorem there_and_back_refused :
    validateAudience serdeText sampleGroupLib "draft" groupDrafts sampleAudienceDb = .ok () ∧
      validateAudience serdeText sampleGroupLib "draft" groupDrafts (Calls.after (groupExec sampleGroupLib)
        sampleAudienceDb [.addMember "g" "b" 2, .reconcileMembers "g" ["a", "a"] false 3]) ≠ .ok () := by
  have hindexed : Indexed sampleAudienceDb := by
    intro g hg g' hg' _
    have hrows : sampleAudienceDb.groups.rows = [sampleGroup] := rfl
    rw [hrows, List.mem_singleton] at hg hg'
    rw [hg, hg']
  have hjson : serdeText.toString sampleAudience = .ok (String.ofList sampleAudience.write) :=
    if_pos sampleAudience_value
  have hr : groupDrafts.row "draft" =
      some (ReplyDraftStore.newDraft groupDraft (String.ofList sampleAudience.write)) :=
    create_row rfl rfl hjson
  have hlaw := fun later => (epochs_detect_changes serdeText sampleGroupLib hindexed).validated [] later "draft"
    groupDrafts _ _ none sampleAudienceState hr rfl rfl hjson
  refine ⟨(hlaw []).2 fun mid hmid => ?_, fun hok => ?_⟩
  · rw [List.prefix_nil.1 hmid]
    rfl
  · have hsame := (hlaw _).1 hok [.addMember "g" "b" 2] (List.cons_prefix_cons.2 ⟨rfl, List.nil_prefix⟩)
    have hb : "b" ∈ sampleAudienceDb.memberSet "g" := (Set.ext_iff.1 hsame "b").1 (member_addMember.2 (.inr ⟨rfl, rfl⟩))
    have hmember : (⟨"g", "b"⟩ : GroupMember) ∈ sampleAudienceDb.members.rows := hb
    revert hmember
    decide

end Execlaw
