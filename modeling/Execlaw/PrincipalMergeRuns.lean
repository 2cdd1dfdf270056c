import Execlaw.PrincipalMerge
/-!
# PrincipalMergeRuns — what a reconciliation leaves alone

Where every group of a merged principal has no other member, and the direct groups it is moved to hold their target
alone, a reconciliation stays inside the conversations of the principals it merges.
-/
namespace Execlaw

open Table Interleave

/-! ## What the statements do -/

namespace ContactDb

def Member (db : ContactDb) (groupId pid : String) : Prop := ⟨groupId, pid⟩ ∈ db.members.rows

variable {db : ContactDb}

theorem mem_membersOf {groupId pid : String} : pid ∈ db.membersOf groupId ↔ db.Member groupId pid := by
  simp only [membersOf, mem_orderBy, List.mem_map, List.mem_filter, decide_eq_true_eq, Member]
  constructor
  · rintro ⟨⟨g, p⟩, ⟨hm, rfl⟩, rfl⟩
    exact hm
  · intro hm
    exact ⟨⟨groupId, pid⟩, ⟨hm, rfl⟩, rfl⟩

theorem mem_sortedSet {l : List String} {pid : String} : pid ∈ sortedSet l ↔ pid ∈ l := by
  rw [sortedSet, List.mem_dedup, mem_orderBy]

variable {principals : List String} {groupId : String}

theorem mem_writeMembers {t : Keyed (id : GroupMember → GroupMember) (fun _ => True)} {m : GroupMember} :
    m ∈ (writeMembers groupId principals t).rows ↔
      if m.groupId = groupId then m.principalId ∈ principals else m ∈ t.rows := by
  have hfold : ∀ (l : List String) (t : Keyed (id : GroupMember → GroupMember) (fun _ => True)),
      m ∈ (l.foldl (fun t pid => t.insertOrIgnore ⟨groupId, pid⟩ trivial) t).rows ↔
        m ∈ t.rows ∨ m.groupId = groupId ∧ m.principalId ∈ l := by
    intro l
    induction l with
    | nil => intro t; simp
    | cons pid l ih =>
      intro t
      rw [List.foldl_cons, ih]
      have hins : m ∈ (t.insertOrIgnore ⟨groupId, pid⟩ trivial).rows ↔ m ∈ t.rows ∨ m = ⟨groupId, pid⟩ := by
        have hrow := Keyed.row_insertOrIgnore (t := t) (r := (⟨groupId, pid⟩ : GroupMember)) trivial m
        have hiff : ∀ t' : Keyed (id : GroupMember → GroupMember) (fun _ => True), t'.row m = some m ↔ m ∈ t'.rows := by
          intro t'
          rw [Keyed.row_iff]
          simp
        rw [← hiff, hrow, ← hiff]
        cases h : t.row m with
        | none => simp [eq_comm]
        | some r =>
          obtain rfl : r = m := Keyed.key_of_row h
          simp
      rw [hins]
      obtain ⟨g, p⟩ := m
      simp only [GroupMember.mk.injEq, List.mem_cons]
      tauto
  rw [writeMembers, hfold]
  simp only [Keyed.removeAll, List.mem_filter, Bool.not_eq_true', decide_eq_false_iff_not]
  split
  · next h => simp [h]
  · next h => simp [h]

variable {includesController : Bool} {now : Int}

theorem member_reconcileMembers {g pid : String} :
    (db.reconcileMembers groupId principals includesController now).Member g pid ↔
      if g = groupId then pid ∈ principals else db.Member g pid := by
  unfold reconcileMembers Member
  dsimp only
  split
  · rw [mem_writeMembers]
    simp [mem_sortedSet]
  · next hsame =>
    have heq : db.membersOf groupId = sortedSet principals := by simpa using hsame
    split
    · next hg =>
      subst hg
      have hmem : pid ∈ db.membersOf g ↔ db.Member g pid := mem_membersOf
      exact hmem.symm.trans (by rw [heq, mem_sortedSet])
    · rfl

theorem row_reconcileMembers_of_ne {g : String} (h : g ≠ groupId) :
    (db.reconcileMembers groupId principals includesController now).groups.row g = db.groups.row g :=
  Keyed.row_update_of_ne _ h _

def groupKey (g : PrincipalGroup) : String × Option String × String := (g.channel, g.nativeGroupId, g.principalSetHash)

theorem key_reconcileMembers (g : String) :
    ((db.reconcileMembers groupId principals includesController now).groups.row g).map
      groupKey = (db.groups.row g).map groupKey :=
  Keyed.map_row_update _ _ _ _ fun _ => rfl

theorem insertGroup_ok {lib : GroupLib} {key : GroupKey} {db db' : ContactDb}
    (h : db.insertGroup lib key now = (.ok groupId, db')) : groupId = lib.uuid db.minted ∧
      db.groups.row groupId = none ∧ (∀ g, g ≠ groupId → db'.groups.row g = db.groups.row g) ∧
      db'.principals = db.principals ∧ db'.members = db.members ∧ db'.bindings = db.bindings ∧
      db'.conversations = db.conversations := by
  unfold insertGroup at h
  dsimp only at h
  split at h
  · cases h
  split at h
  · cases h
  next groups hins =>
  obtain ⟨hok, rfl⟩ := Prod.mk.inj h
  cases hok
  obtain ⟨hnone, hrows⟩ := Keyed.insert?_eq_some hins
  refine ⟨rfl, hnone, fun g hg => ?_, rfl, rfl, rfl, rfl⟩
  rw [hrows, if_neg (Ne.symm hg), Option.or_none]

end ContactDb

open ContactDb

variable {lib : GroupLib} {now : Int}

/-- **What a resolution leaves**: the group `τ` of the key, with the members of the key, and all else as it was. -/
structure Resolved (lib : GroupLib) (key : GroupKey) (db db' : ContactDb) (τ : String) : Prop where
  origin : (∃ g, db.groupOf lib key = some g ∧ g.groupId = τ) ∨ db.groups.row τ = none ∧ ∃ n, τ = lib.uuid n
  kept : ∀ g, (db.groups.row g).isSome = true → (db'.groups.row g).map groupKey = (db.groups.row g).map groupKey
  others : ∀ g, g ≠ τ → db'.groups.row g = db.groups.row g
  member : ∀ g pid, db'.Member g pid ↔ if g = τ then pid ∈ key.principals else db.Member g pid
  principals : db'.principals = db.principals
  bindings : db'.bindings = db.bindings
  conversations : db'.conversations = db.conversations

theorem resolved_reconcileMembers {key : GroupKey} {db db₀ : ContactDb} {τ : String}
    (horigin : (∃ g, db.groupOf lib key = some g ∧ g.groupId = τ) ∨ db.groups.row τ = none ∧ ∃ n, τ = lib.uuid n)
    (hgroups : ∀ g, (db.groups.row g).isSome = true ∨ g ≠ τ → db₀.groups.row g = db.groups.row g)
    (hprincipals : db₀.principals = db.principals) (hmembers : db₀.members = db.members)
    (hbindings : db₀.bindings = db.bindings) (hconversations : db₀.conversations = db.conversations) :
    Resolved lib key db (db₀.reconcileMembers τ key.principals key.includesController now) τ where
  origin := horigin
  kept := by
    intro g hg
    rw [key_reconcileMembers, hgroups g (.inl hg)]
  others := by
    intro g hg
    rw [row_reconcileMembers_of_ne hg, hgroups g (.inr hg)]
  member := by
    intro g pid
    rw [member_reconcileMembers]
    unfold Member
    rw [hmembers]
  principals := hprincipals
  bindings := hbindings
  conversations := hconversations

theorem resolve_ok {key : GroupKey} {db db' : ContactDb} {target : PrincipalGroup}
    (h : (PrincipalGroupStore.resolve lib key now).alone db = (.ok target, db')) :
    Resolved lib key db db' target.groupId := by
  -- the end of a resolution, once the group has an id
  have hend : ∀ {db₀ : ContactDb} {τ : String}
      {reply : Option PrincipalGroup → Prog ContactDb (Except DbError PrincipalGroup)}, (do
        Prog.atomic fun db => ((), db.reconcileMembers τ key.principals key.includesController now)
        reply (← Prog.read fun db => db.groups.row τ) : Prog ContactDb _).alone db₀ = (.ok target, db') →
      reply none = pure (.error (.sqlite "Query returned no rows")) → (∀ g, reply (some g) = pure (.ok g)) →
      τ = target.groupId ∧ db' = db₀.reconcileMembers τ key.principals key.includesController now := by
    intro db₀ τ reply h hnone hsome
    rw [Prog.alone_bind, Prog.alone_atomic, Prog.alone_bind, Prog.alone_read] at h
    cases hg : (db₀.reconcileMembers τ key.principals key.includesController now).groups.row τ with
    | none =>
      rw [hg, hnone] at h
      cases h
    | some g =>
      rw [hg, hsome] at h
      obtain ⟨hok, rfl⟩ := Prod.mk.inj h
      cases hok
      exact ⟨(Keyed.key_of_row hg).symm, rfl⟩
  unfold PrincipalGroupStore.resolve at h
  rw [Prog.alone_bind, Prog.alone_read] at h
  cases hfound : db.groupOf lib key with
  | some g =>
    rw [hfound] at h
    obtain ⟨hτ, rfl⟩ := hend h rfl fun _ => rfl
    rw [← hτ]
    exact resolved_reconcileMembers (.inl ⟨g, hfound, rfl⟩) (fun _ _ => rfl) rfl rfl rfl rfl
  | none =>
    rw [hfound] at h
    rw [Prog.alone_bind, Prog.alone_atomic] at h
    rcases hins : db.insertGroup lib key now with ⟨e | τ, db₀⟩
    · rw [hins] at h
      cases h
    · rw [hins] at h
      obtain ⟨hτ, rfl⟩ := hend h rfl fun _ => rfl
      obtain ⟨huuid, hnone, hothers, hprincipals, hmembers, hbindings, hconversations⟩ := insertGroup_ok hins
      rw [← hτ]
      refine resolved_reconcileMembers (.inr ⟨hnone, _, huuid⟩) (fun g hg => hothers g ?_) hprincipals hmembers
        hbindings hconversations
      rintro rfl
      rw [hnone] at hg
      simp at hg

def repointed (now : Int) (groupId : String) (bound : List TransportBinding)
    (t : Keyed TransportBinding.key (fun _ => True)) : Keyed TransportBinding.key (fun _ => True) :=
  bound.foldl (fun t b => t.update b.key (TransportBindingStore.repointChange groupId now)) t

theorem repointAll_alone (groupId : String) : ∀ (bound : List TransportBinding) (db : ContactDb),
    (repointAll groupId now bound).alone db = ((), { db with bindings := repointed now groupId bound db.bindings })
  | [], _ => rfl
  | b :: rest, db => by
    rw [repointAll, Prog.alone_bind, repointAll_alone groupId rest]
    rfl

def rebound (now : Int) (groupId trustClass : String) (convs : List String)
    (t : Keyed ContactConversation.conversationId (fun _ => True)) :
    Keyed ContactConversation.conversationId (fun _ => True) :=
  convs.foldl (fun t c => (t.update c (PrincipalGroupStore.bindChange groupId)).update c (flipChange trustClass now)) t

theorem rebindAll_alone (groupId trustClass : String) : ∀ (convs : List String) (db : ContactDb),
    (rebindAll groupId trustClass now convs).alone db =
      ((), { db with conversations := rebound now groupId trustClass convs db.conversations })
  | [], _ => rfl
  | c :: rest, db => by
    rw [rebindAll, Prog.alone_bind, Prog.alone_bind, rebindAll_alone groupId trustClass rest]
    rfl

/-- **What a retirement leaves**: the group and its members gone, and all that did not point at it as it was. -/
structure Retired (groupId : String) (db db' : ContactDb) : Prop where
  groups : ∀ g, g ≠ groupId → db'.groups.row g = db.groups.row g
  member : ∀ g pid, db'.Member g pid ↔ g ≠ groupId ∧ db.Member g pid
  bindings : ∀ k b, db.bindings.row k = some b → ∃ b', db'.bindings.row k = some b' ∧
    (b.principalGroupId ≠ groupId → b' = b)
  conversations : ∀ k c, db.conversations.row k = some c → ∃ c', db'.conversations.row k = some c' ∧
    (c.principalGroupId ≠ some groupId → c' = c)
  principals : db'.principals = db.principals
  gone : db'.groups.row groupId = none

def retire (now : Int) (groupId target trustClass : String) (db : ContactDb) : ContactDb :=
  { db with
    bindings := repointed now target (orderBy TransportBinding.createdAt
      (db.bindings.rows.filter (fun b => decide (b.principalGroupId = groupId)))) db.bindings
    conversations := rebound now target trustClass ((db.conversations.rows.filter
      (fun c => decide (c.principalGroupId = some groupId))).map ContactConversation.conversationId) db.conversations
    members := (db.members.removeAll (fun m => decide (m.groupId = groupId))).removeAll
      (fun m => decide (m.groupId = groupId))
    groups := db.groups.remove groupId (fun _ => true) }

theorem retired_retire (groupId target trustClass : String) (db : ContactDb) :
    Retired groupId db (retire now groupId target trustClass db) where
  groups := fun g hg => Keyed.row_remove_of_ne hg
  member := by
    intro g pid
    simp only [retire, Member, Keyed.removeAll, List.mem_filter, Bool.not_eq_true', decide_eq_false_iff_not]
    tauto
  bindings := by
    intro k b hb
    have hsome := Keyed.row_isSome_foldl (t := db.bindings)
      (g := fun t b => t.update b.key (TransportBindingStore.repointChange target now))
      (l := orderBy TransportBinding.createdAt
        (db.bindings.rows.filter (fun b => decide (b.principalGroupId = groupId))))
      (fun t i k h => Keyed.row_isSome_update _ h) (Option.isSome_iff_exists.2 ⟨b, hb⟩)
    obtain ⟨b', hb'⟩ := Option.isSome_iff_exists.1 hsome
    refine ⟨b', hb', fun hne => ?_⟩
    refine Option.mem_unique hb' (Eq.trans ?_ hb)
    refine Keyed.row_foldl_of_notMem (f := TransportBinding.key) (fun t i k h => Keyed.row_update_of_ne t h _) ?_
    -- the listed bindings point at the group
    simp only [List.mem_map, mem_orderBy, List.mem_filter, decide_eq_true_eq, not_exists, not_and]
    rintro b'' ⟨hmem, hgroup⟩ hkey
    have hrow : db.bindings.row k = some b'' := Keyed.row_iff.2 ⟨hmem, hkey⟩
    cases hrow.symm.trans hb
    exact hne hgroup
  conversations := by
    intro k c hc
    have hsome := Keyed.row_isSome_foldl (t := db.conversations)
      (g := fun t c => (t.update c (PrincipalGroupStore.bindChange target)).update c (flipChange trustClass now))
      (l := (db.conversations.rows.filter (fun c => decide (c.principalGroupId = some groupId))).map
        ContactConversation.conversationId)
      (fun t i k h => Keyed.row_isSome_update _ (Keyed.row_isSome_update _ h)) (Option.isSome_iff_exists.2 ⟨c, hc⟩)
    obtain ⟨c', hc'⟩ := Option.isSome_iff_exists.1 hsome
    refine ⟨c', hc', fun hne => ?_⟩
    refine Option.mem_unique hc' (Eq.trans ?_ hc)
    refine Keyed.row_foldl_of_notMem (f := id) (fun t i k h => ?_) ?_
    · exact (Keyed.row_update_of_ne _ h _).trans (Keyed.row_update_of_ne _ h _)
    · simp only [List.map_id_fun, id_eq, List.mem_map, List.mem_filter, decide_eq_true_eq, not_exists, not_and]
      rintro c'' ⟨hmem, hgroup⟩ hkey
      have hrow : db.conversations.row k = some c'' := Keyed.row_iff.2 ⟨hmem, hkey⟩
      cases hrow.symm.trans hc
      exact hne hgroup
  principals := rfl
  gone := by
    rw [retire, Keyed.row_remove, if_pos rfl]
    cases db.groups.row groupId <;> rfl

/-- **One group of a merged principal**: the target's group is resolved, and the group retired unless it is that one. -/
theorem mergeGroup_ok {target stale : Principal} {groupId : String} {counts : Nat × Nat} {db db' : ContactDb}
    (h : (mergeGroup lib now target stale groupId).alone db = (.ok counts, db')) :
    ∃ τ db₁, Resolved lib (targetKey target (staleChannel stale (db.groups.row groupId))) db db₁ τ ∧
      (τ = groupId ∧ db' = db₁ ∨ τ ≠ groupId ∧ db' = retire now groupId τ target.trustLevel.classTag db₁) := by
  unfold mergeGroup at h
  rw [Prog.alone_bind, PrincipalGroupStore.get, Prog.alone_read, Prog.alone_bind] at h
  rcases hres : (PrincipalGroupStore.resolve lib (targetKey target (staleChannel stale (db.groups.row groupId)))
    now).alone db with ⟨e | g, db₁⟩
  · rw [hres] at h
    cases h
  rw [hres] at h
  dsimp only at h
  refine ⟨g.groupId, db₁, resolve_ok hres, ?_⟩
  split at h
  · next heq =>
    cases h
    exact .inl ⟨heq, rfl⟩
  · next hne =>
    refine .inr ⟨hne, ?_⟩
    rw [Prog.alone_bind, TransportBindingStore.bindingsForGroupAnyChannel, Prog.alone_read, Prog.alone_bind,
      repointAll_alone, Prog.alone_bind, listConversationsForGroup, Prog.alone_read, Prog.alone_bind, rebindAll_alone,
      Prog.alone_bind, dropGroupMembers, Prog.alone_atomic, Prog.alone_bind, PrincipalGroupStore.delete,
      Prog.alone_atomic] at h
    cases h
    rfl

/-! ## Who merges into whom -/

theorem before_total (a b : Principal) : before a b ∨ before b a := by
  unfold before
  omega

theorem before_trans {a b c : Principal} (h : before a b) (h' : before b c) : before a c := by
  unfold before at *
  omega

instance : Std.Total before := ⟨before_total⟩

instance : IsTrans Principal before := ⟨fun _ _ _ => before_trans⟩

theorem mem_ranked {l : List Principal} {p : Principal} : p ∈ ranked l ↔ p ∈ l := List.mem_insertionSort _

theorem ranked_first {l rest : List Principal} {p q : Principal} (h : ranked l = p :: rest) (hq : q ∈ l) :
    q = p ∨ before p q := by
  have hsorted : (p :: rest).Pairwise before := h ▸ List.pairwise_insertionSort before l
  have hmem : q ∈ p :: rest := h ▸ mem_ranked.2 hq
  rcases List.mem_cons.1 hmem with rfl | hmem
  · exact .inl rfl
  · exact .inr ((List.pairwise_cons.1 hsorted).1 q hmem)

theorem mem_claimants {all : List Principal} {ident : Identifier} {p : Principal} :
    p ∈ claimants all ident ↔ p ∈ all ∧ ident ∈ p.identifiers := by
  simp only [claimants, List.mem_flatMap, List.mem_replicate, ne_eq, List.count_eq_zero, not_not]
  constructor
  · rintro ⟨q, hq, hident, rfl⟩
    exact ⟨hq, hident⟩
  · rintro ⟨hp, hident⟩
    exact ⟨p, hp, hident, rfl⟩

theorem rank_of_pending {l : TrustLevel} : l.isPending = true ↔ trustRankFor l ≤ 1 := by
  cases l <;> simp [TrustLevel.isPending, trustRankFor]

/-- The identifier has `stale` merged into `target`. -/
structure Merges (db : ContactDb) (ident : Identifier) (target stale : Principal) : Prop where
  first : ∃ others, ranked (claimants db.principals.listAll ident) = target :: others ∧ stale ∈ others
  above : target.trustLevel.isPending = false
  below : stale.trustLevel.isPending = true

def Stale (db : ContactDb) (pid : String) : Prop := ∃ ident target stale, Merges db ident target stale ∧ stale.id = pid

section Merges

variable {db : ContactDb} {ident : Identifier} {target stale : Principal}

theorem Merges.target_mem (h : Merges db ident target stale) :
    db.principals.get target.id = some target ∧ ident ∈ target.identifiers := by
  obtain ⟨others, hranked, -⟩ := h.first
  have hmem : target ∈ ranked (claimants db.principals.listAll ident) := by simp [hranked]
  obtain ⟨hall, hident⟩ := mem_claimants.1 (mem_ranked.1 hmem)
  exact ⟨PrincipalTables.mem_listAll.1 hall, hident⟩

theorem Merges.stale_mem (h : Merges db ident target stale) :
    db.principals.get stale.id = some stale ∧ ident ∈ stale.identifiers := by
  obtain ⟨others, hranked, hstale⟩ := h.first
  have hmem : stale ∈ ranked (claimants db.principals.listAll ident) := by simp [hranked, hstale]
  obtain ⟨hall, hident⟩ := mem_claimants.1 (mem_ranked.1 hmem)
  exact ⟨PrincipalTables.mem_listAll.1 hall, hident⟩

theorem Merges.isStale (h : Merges db ident target stale) : Stale db stale.id := ⟨ident, target, stale, h, rfl⟩

theorem Merges.not_stale (h : Merges db ident target stale) : ¬ Stale db target.id := by
  rintro ⟨ident', target', stale', h', hid⟩
  have hrow := h'.stale_mem.1
  rw [hid, h.target_mem.1] at hrow
  have hbelow := h'.below
  rw [← Option.some.inj hrow, h.above] at hbelow
  cases hbelow

theorem merges_of_claim {p q : Principal} (hp : db.principals.get p.id = some p)
    (hq : db.principals.get q.id = some q) (hident : ident ∈ p.identifiers) (hident' : ident ∈ q.identifiers)
    (hpending : p.trustLevel.isPending = true) (habove : q.trustLevel.isPending = false) :
    ∃ target, Merges db ident target p := by
  have hpmem := mem_claimants.2 ⟨PrincipalTables.mem_listAll.2 hp, hident⟩
  have hqmem := mem_claimants.2 ⟨PrincipalTables.mem_listAll.2 hq, hident'⟩
  cases hranked : ranked (claimants db.principals.listAll ident) with
  | nil =>
    have hnil := mem_ranked.2 hpmem
    rw [hranked] at hnil
    cases hnil
  | cons target others =>
    have htarget : target.trustLevel.isPending = false := by
      have hrank : ¬ trustRankFor q.trustLevel ≤ 1 := by
        rw [← rank_of_pending, habove]
        exact Bool.false_ne_true
      rw [← Bool.not_eq_true, rank_of_pending]
      rcases ranked_first hranked hqmem with rfl | hbefore
      · exact hrank
      · unfold before at hbefore
        omega
    have hmem : p ∈ target :: others := hranked ▸ mem_ranked.2 hpmem
    rcases List.mem_cons.1 hmem with rfl | hmem
    · rw [hpending] at htarget
      cases htarget
    · exact ⟨target, ⟨others, hranked, hmem⟩, htarget, hpending⟩

end Merges

/-! ## The condition and the invariant -/

/-- Every group of a merged principal has no other member, and the direct group it goes to has its target alone, but for
principals that are merged themselves. -/
structure Spared (lib : GroupLib) (db : ContactDb) : Prop where
  alone : ∀ ident target stale, Merges db ident target stale → ∀ g pid, db.Member g stale.id → db.Member g pid →
    pid = stale.id
  direct : ∀ ident target stale, Merges db ident target stale → ∀ g, db.Member g stale.id →
    ∀ r ∈ db.groups.rows, r.channel = staleChannel stale (db.groups.row g) → r.nativeGroupId = none →
    r.principalSetHash = principalSetHash lib [target.id] → ∀ pid, db.Member r.groupId pid →
    pid = target.id ∨ Stale db pid

def Unmerged (db : ContactDb) (g : String) : Prop := ∀ pid, db.Member g pid → ¬ Stale db pid

theorem Merges.not_unmerged {db : ContactDb} {ident : Identifier} {target stale : Principal}
    (h : Merges db ident target stale) {g : String} (hg : db.Member g stale.id) : ¬ Unmerged db g :=
  fun hunmerged => hunmerged _ hg h.isStale

def channelOf (db : ContactDb) (g : String) : Option String := (db.groups.row g).map PrincipalGroup.channel

theorem staleChannel_eq (stale : Principal) (stored : Option PrincipalGroup) : staleChannel stale stored =
    (stored.map PrincipalGroup.channel).getD ((stale.identifiers.head?.map Identifier.transport).getD "") := by
  cases stored <;> rfl

/-- **The groups, and what points at them**, at any point of a reconciliation begun at `db₀`. -/
structure Merging (lib : GroupLib) (db₀ db : ContactDb) : Prop where
  stays : ∀ g pid, db₀.Member g pid → ¬ Stale db₀ pid → db.Member g pid
  joins : ∀ g pid, db.Member g pid → Stale db₀ pid → db₀.Member g pid
  channel : ∀ g pid, db.Member g pid → Stale db₀ pid → channelOf db g = channelOf db₀ g
  groups : ∀ g, Unmerged db₀ g → (db₀.groups.row g).isSome = true →
    (db.groups.row g).map groupKey = (db₀.groups.row g).map groupKey
  minted : ∀ g, (db.groups.row g).isSome = true → (db₀.groups.row g).isSome = true ∨ ∃ n, g = lib.uuid n
  bindings : ∀ k b, db₀.bindings.row k = some b → ∃ b', db.bindings.row k = some b' ∧
    (Unmerged db₀ b.principalGroupId → b' = b)
  conversations : ∀ k c, db₀.conversations.row k = some c → ∃ c', db.conversations.row k = some c' ∧
    ((∀ g, c.principalGroupId = some g → Unmerged db₀ g) → c' = c)

theorem Merging.refl (db : ContactDb) : Merging lib db db where
  stays := fun _ _ h _ => h
  joins := fun _ _ h _ => h
  channel := fun _ _ _ _ => rfl
  groups := fun _ _ _ => rfl
  minted := fun _ h => .inl h
  bindings := fun _ b h => ⟨b, h, fun _ => rfl⟩
  conversations := fun _ c h => ⟨c, h, fun _ => rfl⟩

section Merging

variable {db₀ db db' : ContactDb} {ident : Identifier} {target stale : Principal}
  (hspared : Spared lib db₀) (hfresh : ∀ n g pid, db₀.Member g pid → g ≠ lib.uuid n)
  (hmerges : Merges db₀ ident target stale)
include hspared hmerges

theorem Merging.retired {g : String} (h : Merging lib db₀ db) (hg : db₀.Member g stale.id)
    (hretired : Retired g db db') : Merging lib db₀ db' where
  stays := by
    intro g' pid hmem hpid
    refine (hretired.member g' pid).2 ⟨?_, h.stays g' pid hmem hpid⟩
    rintro rfl
    rw [hspared.alone ident target stale hmerges g' pid hg hmem] at hpid
    exact hpid hmerges.isStale
  joins := fun g' pid hmem hpid => h.joins g' pid ((hretired.member g' pid).1 hmem).2 hpid
  channel := by
    intro g' pid hmem hpid
    obtain ⟨hne, hmem⟩ := (hretired.member g' pid).1 hmem
    rw [channelOf, hretired.groups g' hne]
    exact h.channel g' pid hmem hpid
  groups := by
    intro g' hunmerged hsome
    have hne : g' ≠ g := by
      rintro rfl
      exact hmerges.not_unmerged hg hunmerged
    rw [hretired.groups g' hne]
    exact h.groups g' hunmerged hsome
  minted := by
    intro g' hsome
    by_cases hne : g' = g
    · rw [hne, hretired.gone] at hsome
      cases hsome
    · rw [hretired.groups g' hne] at hsome
      exact h.minted g' hsome
  bindings := by
    intro k b hb
    obtain ⟨b', hb', hsame⟩ := h.bindings k b hb
    obtain ⟨b'', hb'', hsame'⟩ := hretired.bindings k b' hb'
    refine ⟨b'', hb'', fun hunmerged => ?_⟩
    obtain rfl := hsame hunmerged
    refine hsame' ?_
    rintro hgroup
    exact hmerges.not_unmerged hg (hgroup ▸ hunmerged)
  conversations := by
    intro k c hc
    obtain ⟨c', hc', hsame⟩ := h.conversations k c hc
    obtain ⟨c'', hc'', hsame'⟩ := hretired.conversations k c' hc'
    refine ⟨c'', hc'', fun hunmerged => ?_⟩
    obtain rfl := hsame hunmerged
    refine hsame' ?_
    rintro hgroup
    exact hmerges.not_unmerged hg (hunmerged g hgroup)

include hfresh

theorem Merging.resolved {g τ : String} (h : Merging lib db₀ db) (hg : db₀.Member g stale.id)
    (hchannel : channelOf db g = channelOf db₀ g)
    (hres : Resolved lib (targetKey target (staleChannel stale (db.groups.row g))) db db' τ) :
    Merging lib db₀ db' ∧ ∀ g' pid, db₀.Member g' pid → channelOf db' g' = channelOf db g' := by
  -- the group of the target, if it had members, was there before
  have hfound : ∀ pid, db₀.Member τ pid → ∃ r, db.groupOf lib
      (targetKey target (staleChannel stale (db.groups.row g))) = some r ∧ r.groupId = τ := by
    intro pid hmem
    rcases hres.origin with hfound | ⟨-, n, hn⟩
    · exact hfound
    · exact absurd hn (hfresh n τ pid hmem)
  have hrow : ∀ {r : PrincipalGroup}, db.groupOf lib (targetKey target (staleChannel stale (db.groups.row g))) =
      some r → r ∈ db.groups.rows ∧ r.channel = staleChannel stale (db.groups.row g) ∧
        r.principalSetHash = principalSetHash lib [target.id] ∧ r.nativeGroupId = none := by
    intro r hr
    have htakes := List.find?_some hr
    exact ⟨List.mem_of_find?_eq_some hr, of_decide_eq_true htakes⟩
  have hkeys : ∀ g' pid, db₀.Member g' pid → channelOf db' g' = channelOf db g' := by
    intro g' pid hmem
    by_cases hg' : g' = τ
    · subst hg'
      obtain ⟨r, hr, hid⟩ := hfound pid hmem
      have hsome : (db.groups.row g').isSome = true :=
        Option.isSome_iff_exists.2 ⟨r, Keyed.row_iff.2 ⟨(hrow hr).1, hid⟩⟩
      have hkept := congrArg (Option.map Prod.fst) (hres.kept g' hsome)
      rwa [Option.map_map, Option.map_map] at hkept
    · rw [channelOf, hres.others g' hg', channelOf]
  have hstaleChannel : staleChannel stale (db.groups.row g) = staleChannel stale (db₀.groups.row g) := by
    rw [staleChannel_eq, staleChannel_eq, ← channelOf, ← channelOf, hchannel]
  -- a member of the target's group that stays is the target
  have hdirect : ∀ pid, db₀.Member τ pid → ¬ Stale db₀ pid → pid = target.id := by
    intro pid hmem hpid
    obtain ⟨r, hr, hid⟩ := hfound pid hmem
    obtain ⟨hmemr, hch, hhash, hnative⟩ := hrow hr
    have hunmerged : Unmerged db₀ τ := by
      rintro pid' hmem' ⟨ident', target', stale', hmerges', rfl⟩
      rw [hspared.alone ident' target' stale' hmerges' τ pid hmem' hmem] at hpid
      exact hpid hmerges'.isStale
    have hdbrow : db.groups.row τ = some r := Keyed.row_iff.2 ⟨hmemr, hid⟩
    have hsome : (db₀.groups.row τ).isSome = true := by
      rcases h.minted τ (by rw [hdbrow]; rfl) with hsome | ⟨n, hn⟩
      · exact hsome
      · exact absurd hn (hfresh n τ pid hmem)
    obtain ⟨r₀, hr₀⟩ := Option.isSome_iff_exists.1 hsome
    have hkey := h.groups τ hunmerged hsome
    rw [hdbrow, hr₀] at hkey
    simp only [Option.map_some, Option.some.injEq, groupKey, Prod.mk.injEq] at hkey
    obtain ⟨hmemr₀, hid₀⟩ := Keyed.row_iff.1 hr₀
    have hor := hspared.direct ident target stale hmerges g hg r₀ hmemr₀
      (by rw [← hkey.1, hch, hstaleChannel]) (by rw [← hkey.2.1, hnative]) (by rw [← hkey.2.2, hhash]) pid
      (by rwa [hid₀])
    exact hor.resolve_right hpid
  refine ⟨⟨?_, ?_, ?_, ?_, ?_, ?_, ?_⟩, hkeys⟩
  · intro g' pid hmem hpid
    rw [hres.member]
    split
    · next hg' => simpa [targetKey] using hdirect pid (hg' ▸ hmem) hpid
    · exact h.stays g' pid hmem hpid
  · intro g' pid hmem hpid
    rw [hres.member] at hmem
    split at hmem
    · have hid : pid = target.id := by simpa [targetKey] using hmem
      exact absurd (hid ▸ hpid) hmerges.not_stale
    · exact h.joins g' pid hmem hpid
  · intro g' pid hmem hpid
    rw [hres.member] at hmem
    split at hmem
    · have hid : pid = target.id := by simpa [targetKey] using hmem
      exact absurd (hid ▸ hpid) hmerges.not_stale
    · rw [hkeys g' pid (h.joins g' pid hmem hpid)]
      exact h.channel g' pid hmem hpid
  · intro g' hunmerged hsome
    have hkey := h.groups g' hunmerged hsome
    rw [← hkey]
    refine hres.kept g' ?_
    have hmap := congrArg Option.isSome hkey
    rwa [Option.isSome_map, Option.isSome_map, hsome] at hmap
  · intro g' hsome
    by_cases hg' : g' = τ
    · subst hg'
      rcases hres.origin with ⟨r, hr, hid⟩ | ⟨-, n, hn⟩
      · exact h.minted g' (Option.isSome_iff_exists.2 ⟨r, Keyed.row_iff.2 ⟨(hrow hr).1, hid⟩⟩)
      · exact .inr ⟨n, hn⟩
    · rw [hres.others g' hg'] at hsome
      exact h.minted g' hsome
  · rw [hres.bindings]
    exact h.bindings
  · rw [hres.conversations]
    exact h.conversations

theorem Merging.mergeGroup {g : String} {counts : Nat × Nat} (h : Merging lib db₀ db) (hg : db₀.Member g stale.id)
    (hchannel : channelOf db g = channelOf db₀ g)
    (hok : (mergeGroup lib now target stale g).alone db = (.ok counts, db')) :
    Merging lib db₀ db' ∧ db'.principals = db.principals ∧
      ∀ g' pid, g' ≠ g → db₀.Member g' pid → channelOf db' g' = channelOf db g' := by
  obtain ⟨τ, db₁, hres, hcase⟩ := mergeGroup_ok hok
  obtain ⟨h₁, hkeys⟩ := h.resolved hspared hfresh hmerges hg hchannel hres
  rcases hcase with ⟨-, rfl⟩ | ⟨-, rfl⟩
  · exact ⟨h₁, hres.principals, fun g' pid _ hmem => hkeys g' pid hmem⟩
  · have hretired : Retired g db₁ (retire now g τ target.trustLevel.classTag db₁) := retired_retire g τ _ db₁
    refine ⟨h₁.retired hspared hmerges hg hretired, hretired.principals.trans hres.principals, fun g' pid hne hmem => ?_⟩
    rw [channelOf, hretired.groups g' hne]
    exact hkeys g' pid hmem

theorem Merging.mergeGroups : ∀ {groups : List String} {report report' : ReconcileReport} {db : ContactDb},
    Merging lib db₀ db → groups.Nodup → (∀ g ∈ groups, db₀.Member g stale.id) →
    (∀ g ∈ groups, channelOf db g = channelOf db₀ g) →
    (mergeGroups lib now target stale groups report).alone db = (.ok report', db') →
    Merging lib db₀ db' ∧ db'.principals = db.principals ∧ report'.merged = report.merged
  | [], report, report', db, h, _, _, _, hok => by
    obtain ⟨hreport, rfl⟩ := Prod.mk.inj hok
    cases hreport
    exact ⟨h, rfl, rfl⟩
  | g :: rest, report, report', db, h, hnd, hmem, hchannel, hok => by
    rw [Execlaw.mergeGroups, Prog.alone_bind] at hok
    rcases hone : (Execlaw.mergeGroup lib now target stale g).alone db with ⟨e | counts, db₁⟩
    · rw [hone] at hok
      cases hok
    rw [hone] at hok
    obtain ⟨hnot, hnd⟩ := List.nodup_cons.1 hnd
    obtain ⟨h₁, hprincipals, hkeys⟩ := h.mergeGroup hspared hfresh hmerges (hmem g (by simp)) (hchannel g (by simp)) hone
    have hchannel' : ∀ g' ∈ rest, channelOf db₁ g' = channelOf db₀ g' := by
      intro g' hg'
      have hne : g' ≠ g := fun heq => hnot (heq ▸ hg')
      rw [hkeys g' stale.id hne (hmem g' (by simp [hg']))]
      exact hchannel g' (by simp [hg'])
    obtain ⟨h', hprincipals', hmerged⟩ :=
      Merging.mergeGroups h₁ hnd (fun g' hg' => hmem g' (by simp [hg'])) hchannel' hok
    exact ⟨h', hprincipals'.trans hprincipals, hmerged⟩

end Merging

/-! ## The whole walk -/

/-- **A reconciliation under way**: the invariant of the groups, and the principals merged so far gone. -/
structure Reconciling (lib : GroupLib) (db₀ db : ContactDb) (report : ReconcileReport) : Prop where
  merging : Merging lib db₀ db
  rows : ∀ id, db.principals.get id = if id ∈ report.merged.map Prod.fst then none else db₀.principals.get id
  stale : ∀ id ∈ report.merged.map Prod.fst, Stale db₀ id

section Walk

variable {db₀ db db' : ContactDb} {report report' : ReconcileReport} (hspared : Spared lib db₀)
  (hfresh : ∀ n g pid, db₀.Member g pid → g ≠ lib.uuid n)
include hspared hfresh

variable {ident : Identifier}

theorem Reconciling.mergePrincipal {target stale : Principal} (h : Reconciling lib db₀ db report)
    (hmerges : Merges db₀ ident target stale)
    (hok : (mergePrincipal lib now target stale report).alone db = (.ok report', db')) :
    Reconciling lib db₀ db' report' ∧ report'.merged = report.merged ++ [(stale.id, target.id)] := by
  unfold Execlaw.mergePrincipal at hok
  rw [Prog.alone_bind, listGroupsForMember, Prog.alone_read, Prog.alone_bind] at hok
  -- each group is listed once, and has the principal as a member
  have hlisted : ∀ g, g ∈ (db.members.rows.filter (fun m => decide (m.principalId = stale.id))).map GroupMember.groupId ↔
      db.Member g stale.id := by
    intro g
    simp only [List.mem_map, List.mem_filter, decide_eq_true_eq, Member]
    constructor
    · rintro ⟨⟨g', p⟩, ⟨hm, rfl⟩, rfl⟩
      exact hm
    · intro hm
      exact ⟨_, ⟨hm, rfl⟩, rfl⟩
  have hnd : ((db.members.rows.filter (fun m => decide (m.principalId = stale.id))).map GroupMember.groupId).Nodup := by
    have hrows : (db.members.rows.filter (fun m => decide (m.principalId = stale.id))).Nodup := by
      have hunique := db.members.unique
      rw [List.map_id] at hunique
      exact hunique.filter _
    refine hrows.map_on fun a ha b hb hab => ?_
    obtain ⟨-, ha⟩ := List.mem_filter.1 ha
    obtain ⟨-, hb⟩ := List.mem_filter.1 hb
    obtain ⟨ga, pa⟩ := a
    obtain ⟨gb, pb⟩ := b
    simp only [decide_eq_true_eq] at ha hb
    rw [GroupMember.mk.injEq]
    exact ⟨hab, ha.trans hb.symm⟩
  rcases hgroups : (mergeGroups lib now target stale ((db.members.rows.filter
    (fun m => decide (m.principalId = stale.id))).map GroupMember.groupId) report).alone db with ⟨e | report₁, db₁⟩
  · rw [hgroups] at hok
    cases hok
  rw [hgroups] at hok
  rw [Prog.alone_bind, PrincipalStore.delete, Prog.alone_atomic] at hok
  obtain ⟨hreport, rfl⟩ := Prod.mk.inj hok
  cases hreport
  obtain ⟨hmerging, hprincipals, hmerged⟩ := h.merging.mergeGroups hspared hfresh hmerges hnd
    (fun g hg => h.merging.joins g stale.id ((hlisted g).1 hg) hmerges.isStale)
    (fun g hg => h.merging.channel g stale.id ((hlisted g).1 hg) hmerges.isStale) hgroups
  refine ⟨⟨?_, ?_, ?_⟩, by rw [← hmerged]⟩
  · exact ⟨hmerging.stays, hmerging.joins, hmerging.channel, hmerging.groups, hmerging.minted, hmerging.bindings,
      hmerging.conversations⟩
  · intro id
    rw [PrincipalTables.get_delete, hprincipals, h.rows, hmerged, List.map_append]
    simp only [List.mem_append, List.map_cons, List.map_nil, List.mem_singleton]
    by_cases hid : id = stale.id
    · rw [if_pos hid, if_pos (.inr hid)]
    · simp only [hid, if_false, or_false]
  · intro id hid
    rw [hmerged, List.map_append, List.mem_append] at hid
    rcases hid with hid | hid
    · exact h.stale id hid
    · obtain rfl : id = stale.id := by simpa using hid
      exact hmerges.isStale

theorem Reconciling.mergeClaimants {target : Principal} : ∀ {others : List Principal}
    {report report' : ReconcileReport} {db : ContactDb}, Reconciling lib db₀ db report →
    (∀ s ∈ others, s.trustLevel.isPending = true → Merges db₀ ident target s) →
    (mergeClaimants lib now target others report).alone db = (.ok report', db') →
    Reconciling lib db₀ db' report' ∧ report.merged ⊆ report'.merged ∧
      ∀ s ∈ others, s.trustLevel.isPending = true → s.id ∈ report'.merged.map Prod.fst
  | [], report, report', db, h, _, hok => by
    obtain ⟨hreport, rfl⟩ := Prod.mk.inj hok
    cases hreport
    exact ⟨h, List.Subset.refl _, nofun⟩
  | s :: rest, report, report', db, h, hothers, hok => by
    unfold Execlaw.mergeClaimants at hok
    split at hok
    · next hskip =>
      obtain ⟨h', hsub, hrest⟩ :=
        Reconciling.mergeClaimants h (fun s hs => hothers s (List.mem_cons_of_mem _ hs)) hok
      refine ⟨h', hsub, List.forall_mem_cons.2 ⟨fun hpending => ?_, hrest⟩⟩
      -- a claimant that is skipped is merged already
      have hmerged : s.id ∈ report.merged.map Prod.fst := by
        rw [hpending] at hskip
        simpa [ReconcileReport.alreadyMerged] using hskip
      exact List.map_subset Prod.fst hsub hmerged
    · next hmerge =>
      have hpending : s.trustLevel.isPending = true := by
        rw [Bool.or_eq_true, not_or, Bool.not_eq_true', Bool.not_eq_false] at hmerge
        exact hmerge.1
      rw [Prog.alone_bind] at hok
      rcases hone : (Execlaw.mergePrincipal lib now target s report).alone db with ⟨e | report₁, db₁⟩
      · rw [hone] at hok
        cases hok
      rw [hone] at hok
      obtain ⟨h₁, hmerged⟩ := h.mergePrincipal hspared hfresh (hothers s (by simp) hpending) hone
      obtain ⟨h', hsub, hrest⟩ :=
        Reconciling.mergeClaimants h₁ (fun s hs => hothers s (List.mem_cons_of_mem _ hs)) hok
      have hsub₁ : report.merged ⊆ report₁.merged := by
        rw [hmerged]
        exact List.subset_append_left _ _
      refine ⟨h', List.Subset.trans hsub₁ hsub, List.forall_mem_cons.2 ⟨fun _ => ?_, hrest⟩⟩
      refine List.map_subset Prod.fst hsub ?_
      rw [hmerged]
      simp

theorem Reconciling.mergeIdentifier (h : Reconciling lib db₀ db report)
    (hok : (mergeIdentifier lib now db₀.principals.listAll ident report).alone db = (.ok report', db')) :
    Reconciling lib db₀ db' report' ∧ report.merged ⊆ report'.merged ∧
      ∀ target s, Merges db₀ ident target s → s.id ∈ report'.merged.map Prod.fst := by
  unfold Execlaw.mergeIdentifier at hok
  split at hok
  · next hranked =>
    obtain ⟨hreport, rfl⟩ := Prod.mk.inj hok
    cases hreport
    refine ⟨h, List.Subset.refl _, ?_⟩
    rintro target s ⟨⟨others, hfirst, -⟩, -, -⟩
    rw [hranked] at hfirst
    cases hfirst
  next target others hranked =>
  split at hok
  · next hskip =>
    obtain ⟨hreport, rfl⟩ := Prod.mk.inj hok
    cases hreport
    refine ⟨h, List.Subset.refl _, ?_⟩
    rintro target' s ⟨⟨others', hfirst, hs⟩, habove, -⟩
    obtain ⟨rfl, rfl⟩ := List.cons.inj (hranked.symm.trans hfirst)
    rw [habove, Bool.or_false, List.isEmpty_iff] at hskip
    rw [hskip] at hs
    cases hs
  · next hgo =>
    rw [Bool.or_eq_true, not_or, Bool.not_eq_true, Bool.not_eq_true] at hgo
    obtain ⟨h', hsub, hall⟩ := h.mergeClaimants hspared hfresh
      (fun s hs hpending => ⟨⟨others, hranked, hs⟩, hgo.2, hpending⟩) hok
    refine ⟨h', hsub, ?_⟩
    rintro target' s ⟨⟨others', hfirst, hs⟩, -, hpending⟩
    obtain ⟨rfl, rfl⟩ := List.cons.inj (hranked.symm.trans hfirst)
    exact hall s hs hpending

theorem Reconciling.mergeIdentifiers : ∀ {idents : List Identifier} {report report' : ReconcileReport} {db : ContactDb},
    Reconciling lib db₀ db report →
    (mergeIdentifiers lib now db₀.principals.listAll idents report).alone db = (.ok report', db') →
    Reconciling lib db₀ db' report' ∧ report.merged ⊆ report'.merged ∧
      ∀ ident ∈ idents, ∀ target s, Merges db₀ ident target s → s.id ∈ report'.merged.map Prod.fst
  | [], report, report', db, h, hok => by
    obtain ⟨hreport, rfl⟩ := Prod.mk.inj hok
    cases hreport
    exact ⟨h, List.Subset.refl _, nofun⟩
  | ident :: rest, report, report', db, h, hok => by
    rw [Execlaw.mergeIdentifiers, Prog.alone_bind] at hok
    rcases hone : (Execlaw.mergeIdentifier lib now db₀.principals.listAll ident report).alone db with ⟨e | report₁, db₁⟩
    · rw [hone] at hok
      cases hok
    rw [hone] at hok
    obtain ⟨h₁, hsub₁, hident⟩ := h.mergeIdentifier hspared hfresh hone
    obtain ⟨h', hsub, hrest⟩ := Reconciling.mergeIdentifiers h₁ hok
    refine ⟨h', List.Subset.trans hsub₁ hsub, List.forall_mem_cons.2 ⟨fun target s hmerges => ?_, hrest⟩⟩
    exact List.map_subset Prod.fst hsub (hident target s hmerges)

end Walk

/-! ## A reconciliation with nothing to merge -/

theorem mergeClaimants_alone_of_none {target : Principal} {report : ReconcileReport} (db : ContactDb) :
    ∀ {others : List Principal}, (∀ s ∈ others, s.trustLevel.isPending = false) →
      (mergeClaimants lib now target others report).alone db = (.ok report, db)
  | [], _ => rfl
  | s :: rest, h => by
    rw [mergeClaimants, h s (by simp)]
    exact mergeClaimants_alone_of_none db fun s' hs' => h s' (by simp [hs'])

theorem mergeIdentifiers_alone_of_none {db : ContactDb} (hnone : ∀ ident target stale, ¬ Merges db ident target stale)
    (report : ReconcileReport) : ∀ (idents : List Identifier),
      (mergeIdentifiers lib now db.principals.listAll idents report).alone db = (.ok report, db)
  | [] => rfl
  | ident :: rest => by
    have hone : (mergeIdentifier lib now db.principals.listAll ident report).alone db = (.ok report, db) := by
      unfold mergeIdentifier
      split
      · rfl
      next target others hranked =>
      split
      · rfl
      next hgo =>
      rw [Bool.or_eq_true, not_or, Bool.not_eq_true, Bool.not_eq_true] at hgo
      refine mergeClaimants_alone_of_none db fun s hs => ?_
      by_contra hpending
      exact hnone ident target s ⟨⟨others, hranked, hs⟩, hgo.2, by simpa using hpending⟩
    rw [mergeIdentifiers, Prog.alone_bind, hone]
    exact mergeIdentifiers_alone_of_none hnone report rest

/-! ## What a reconciliation leaves alone -/

def MergedAway (db db' : ContactDb) (pid : String) : Prop :=
  db.principals.get pid ≠ none ∧ db'.principals.get pid = none

def SoleMember (db : ContactDb) (g pid : String) : Prop := ∀ q, db.Member g q ↔ q = pid

/-- **A reconciliation kept to the conversations of the principals it merged.** -/
structure Reconciled (lib : GroupLib) (db db' : ContactDb) : Prop where
  deleted : ∀ id p, db.principals.get id = some p → db'.principals.get id = none →
    p.trustLevel.isPending = true ∧ ∃ q ident, db'.principals.get q.id = some q ∧ q.trustLevel.isPending = false ∧
      ident ∈ p.identifiers ∧ ident ∈ q.identifiers
  kept : ∀ id p, db'.principals.get id = some p → db.principals.get id = some p
  members : ∀ g pid, db.Member g pid → db'.principals.get pid ≠ none → db'.Member g pid
  bindings : ∀ k b, db.bindings.row k = some b → ∃ b', db'.bindings.row k = some b' ∧
    (b'.principalGroupId ≠ b.principalGroupId → ∃ s, MergedAway db db' s ∧ SoleMember db b.principalGroupId s)
  conversations : ∀ k c, db.conversations.row k = some c → ∃ c', db'.conversations.row k = some c' ∧
    (c'.principalGroupId ≠ c.principalGroupId ∨ c'.trustClass ≠ c.trustClass →
      ∃ s g, MergedAway db db' s ∧ c.principalGroupId = some g ∧ SoleMember db g s)
  again : ∀ (o : MapOrder) now, (reconcileAgainstMyIdentities lib o now).alone db' = (.ok ⟨[], 0, 0⟩, db')

/-- **Reconciling identities** stays inside the conversations of the principals it merges, where those are alone in
their groups. -/
theorem reconciled {o : MapOrder} {db db' : ContactDb} {report : ReconcileReport} (hspared : Spared lib db)
    (hfresh : ∀ n g pid, db.Member g pid → g ≠ lib.uuid n)
    (hok : (reconcileAgainstMyIdentities lib o now).alone db = (.ok report, db')) : Reconciled lib db db' := by
  unfold reconcileAgainstMyIdentities at hok
  rw [Prog.alone_bind, PrincipalStore.listAll, Prog.alone_read] at hok
  have hstart : Reconciling lib db db ⟨[], 0, 0⟩ := ⟨.refl db, fun id => by simp, nofun⟩
  obtain ⟨h, -, hall⟩ := hstart.mergeIdentifiers hspared hfresh hok
  -- every principal that some identifier has merged is gone, and no other
  have hmerged : ∀ {ident target s}, Merges db ident target s → db'.principals.get s.id = none := by
    intro ident target s hm
    have hident : ident ∈ o.order (claimed db.principals.listAll) := by
      rw [(o.perm _).mem_iff, claimed, List.mem_dedup, List.mem_flatMap]
      exact ⟨s, PrincipalTables.mem_listAll.2 hm.stale_mem.1, hm.stale_mem.2⟩
    rw [h.rows, if_pos (hall ident hident target s hm)]
  have hkept : ∀ id p, db'.principals.get id = some p → db.principals.get id = some p := by
    intro id p hp
    rw [h.rows] at hp
    split at hp
    · cases hp
    · exact hp
  have hgone : ∀ id p, db.principals.get id = some p → db'.principals.get id = none → Stale db id := by
    intro id p hp hnone
    rw [h.rows] at hnone
    split at hnone
    · next hmem => exact h.stale id hmem
    · rw [hp] at hnone
      cases hnone
  have hsurvives : ∀ {ident target s}, Merges db ident target s → db'.principals.get target.id = some target := by
    intro ident target s hm
    rw [h.rows, if_neg fun hmem => hm.not_stale (h.stale _ hmem)]
    exact hm.target_mem.1
  -- a group that is touched is that of one merged principal
  have htouched : ∀ g, ¬ Unmerged db g → ∃ s, MergedAway db db' s ∧ SoleMember db g s := by
    intro g hg
    simp only [Unmerged, not_forall, not_not] at hg
    obtain ⟨_, hmem, ident, target, s, hm, rfl⟩ := hg
    refine ⟨s.id, ⟨by rw [hm.stale_mem.1]; exact Option.some_ne_none s, hmerged hm⟩, fun q => ?_⟩
    exact ⟨fun hq => hspared.alone ident target s hm g q hmem hq, fun hq => hq ▸ hmem⟩
  refine ⟨?_, hkept, ?_, ?_, ?_, ?_⟩
  · intro id p hp hnone
    obtain ⟨ident, target, s, hm, rfl⟩ := hgone id p hp hnone
    cases hm.stale_mem.1.symm.trans hp
    exact ⟨hm.below, target, ident, hsurvives hm, hm.above, hm.stale_mem.2, hm.target_mem.2⟩
  · intro g pid hmem hsome
    refine h.merging.stays g pid hmem ?_
    rintro ⟨ident, target, s, hm, rfl⟩
    exact hsome (hmerged hm)
  · intro k b hb
    obtain ⟨b', hb', hsame⟩ := h.merging.bindings k b hb
    refine ⟨b', hb', fun hne => htouched _ fun hunmerged => hne ?_⟩
    rw [hsame hunmerged]
  · intro k c hc
    obtain ⟨c', hc', hsame⟩ := h.merging.conversations k c hc
    refine ⟨c', hc', fun hne => ?_⟩
    by_contra hnot
    have hc'c : c' = c := by
      refine hsame fun g hg => ?_
      by_contra hunmerged
      obtain ⟨s, hs, hsole⟩ := htouched g hunmerged
      exact hnot ⟨s, g, hs, hg, hsole⟩
    rcases hne with hne | hne <;> exact hne (by rw [hc'c])
  · intro o' now'
    unfold reconcileAgainstMyIdentities
    rw [Prog.alone_bind, PrincipalStore.listAll, Prog.alone_read]
    refine mergeIdentifiers_alone_of_none (fun ident target s hm => ?_) _ _
    -- a claimant left to merge would have been merged
    obtain ⟨htarget, htident⟩ := hm.target_mem
    obtain ⟨hs, hsident⟩ := hm.stale_mem
    obtain ⟨target', hm'⟩ := merges_of_claim (hkept _ _ hs) (hkept _ _ htarget) hsident htident hm.below hm.above
    rw [hmerged hm'] at hs
    cases hs

def sampleGroupLib : GroupLib := ⟨id, fun n => "u" ++ toString n⟩

def asListed : MapOrder := ⟨id, fun _ => .refl _⟩

def samplePrincipal (id handle : String) (trustLevel : TrustLevel) : Principal :=
  { id := id, identifiers := [⟨"signal", handle⟩], trustLevel := trustLevel, resolvedBy := [], metadata := "\x7b\x7d",
    firstSeen := 0, lastSeen := none, controllerNotes := none }

/-- The operator `c` and the cold contact `s` on one handle; `s` is in a group with these others. -/
def coldContact (others : List String) : ContactDb :=
  { ContactDb.empty with
    principals := ((PrincipalTables.empty.upsert (samplePrincipal "c" "+1" .controller)).upsert
      (samplePrincipal "o" "+2" (.knownLimited [] [] none))).upsert (samplePrincipal "s" "+1" (.unknownPending 0 none))
    groups := Keyed.empty.insertOrIgnore ⟨"g", "signal", some "G", "G", false, 0, 0, 0⟩ trivial
    members := ContactDb.writeMembers "g" ("s" :: others) .empty
    bindings := Keyed.empty.insertOrIgnore ⟨"signal", "G", "g", true, 0, none⟩ trivial
    conversations := Keyed.empty.insertOrIgnore ⟨"k", .awaitingTrustDecision, "KnownLimited", some "g", 0⟩ trivial }

def reconcileSample (db : ContactDb) : Except DbError ReconcileReport × ContactDb :=
  (reconcileAgainstMyIdentities sampleGroupLib asListed 5).alone db

/-- **A cold contact alone in its group** is merged. -/
theorem reconciled_alone : Reconciled sampleGroupLib (coldContact []) (reconcileSample (coldContact [])).2 ∧
    MergedAway (coldContact []) (reconcileSample (coldContact [])).2 "s" := by
  have hmember : ∀ g pid, (coldContact []).Member g pid → g = "g" ∧ pid = "s" := by
    intro g pid hmem
    have hrows : (coldContact []).members.rows = [⟨"g", "s"⟩] := by decide +kernel
    unfold ContactDb.Member at hmem
    rw [hrows, List.mem_singleton, GroupMember.mk.injEq] at hmem
    exact hmem
  have hspared : Spared sampleGroupLib (coldContact []) := by
    constructor
    · intro ident target s _ g pid hs hpid
      rw [(hmember g pid hpid).2, (hmember g s.id hs).2]
    · intro ident target s hm g hs r _ _ _ _ pid hpid
      right
      rw [(hmember _ pid hpid).2, ← (hmember g s.id hs).2]
      exact hm.isStale
  have hfresh : ∀ n g pid, (coldContact []).Member g pid → g ≠ sampleGroupLib.uuid n := by
    rintro n g pid hmem hg
    rw [(hmember g pid hmem).1] at hg
    have hhead := congrArg (fun s => s.toList.head?) hg
    simp [sampleGroupLib] at hhead
  have hreport : (reconcileSample (coldContact [])).1.toOption = some ⟨[("s", "c")], 1, 1⟩ := by decide +kernel
  have hok : ∃ report, reconcileSample (coldContact []) = (.ok report, (reconcileSample (coldContact [])).2) := by
    rcases hres : reconcileSample (coldContact []) with ⟨e | report, db'⟩
    · rw [hres] at hreport
      cases hreport
    · exact ⟨report, rfl⟩
  obtain ⟨report, hok⟩ := hok
  refine ⟨reconciled hspared hfresh hok, ?_, ?_⟩
  · decide +kernel
  · decide +kernel

/-- **A shared group**: the other member loses it, and its conversation goes to the operator under the operator's trust. -/
theorem shared_group_taken : (reconcileSample (coldContact ["o"])).1.toOption = some ⟨[("s", "c")], 1, 1⟩ ∧
    ((reconcileSample (coldContact ["o"])).2.conversations.row "k").map ContactConversation.trustClass =
      some "Controller" ∧
    ¬ Reconciled sampleGroupLib (coldContact ["o"]) (reconcileSample (coldContact ["o"])).2 := by
  refine ⟨by decide +kernel, by decide +kernel, fun h => ?_⟩
  have hmem : (⟨"g", "o"⟩ : GroupMember) ∈ (coldContact ["o"]).members.rows := by decide +kernel
  have hsurvives : (reconcileSample (coldContact ["o"])).2.principals.get "o" ≠ none := by decide +kernel
  have hlost : (⟨"g", "o"⟩ : GroupMember) ∉ (reconcileSample (coldContact ["o"])).2.members.rows := by decide +kernel
  exact hlost (h.members "g" "o" hmem hsurvives)

end Execlaw
