import Execlaw.Tamper
import Mathlib.Data.String.Basic
/-!
# Freshness — the external freshness manifest (`core/src/events.rs`)

A manifest is the signed list of a database's conversation heads, kept outside it.  Comparing a database with a manifest
looks at head sequences and head tags only.  At an equal sequence the tags must agree; past it nothing is compared, so a
database that was rolled back below a referenced head and extended past it with other events is reported as advanced.
-/
namespace Execlaw

open Wire EventHmac Steps

variable {mac : Mac} {ring : KeyRing} {c : String} {db db₀ : Db}

/-! ## Manifests -/

structure FreshnessHead where
  conversationId : String
  sequence : Int
  tag : List UInt8
deriving DecidableEq

structure FreshnessManifest where
  formatVersion : Nat
  generatedAt : Int
  keyId : Int
  heads : List FreshnessHead
  signature : List UInt8
deriving DecidableEq

inductive FreshnessComparison
  | matches
  | databaseAdvanced (conversations : List String)
  | rollbackDetected (conversations : List String)
  | diverged (conversations : List String)
deriving DecidableEq

def canonicalHeads : List FreshnessHead → List UInt8
  | [] => []
  | head :: heads =>
    leU64 (utf8 head.conversationId).length ++ (utf8 head.conversationId ++ (leI64 head.sequence ++
      (leU64 head.tag.length ++ (head.tag ++ canonicalHeads heads))))

def canonicalFreshness (formatVersion : Nat) (generatedAt keyId : Int) (heads : List FreshnessHead) : List UInt8 :=
  utf8 "execlaw/external-freshness/v1\x00" ++ (leBytes 4 formatVersion ++ (leI64 generatedAt ++ (leI64 keyId ++
    (leU64 heads.length ++ canonicalHeads heads))))

def eventConversations (db : Db) : List String :=
  Table.orderBy (fun cid : String => cid) (db.events.map EventRow.conversationId).dedup

def verifyConversations (mac : Mac) (ring : KeyRing) (db : Db) : List String → Except DbError Unit
  | [] => .ok ()
  | cid :: cids => do
    verifyIntegrity mac (some ring) cid (loadIntegrityRows db cid) (loadIntegrityHead db cid)
    verifyConversations mac ring db cids

def freshnessHeads (db : Db) : List FreshnessHead :=
  (Table.orderBy (Prod.fst : String × IntegrityHead → String) db.heads).map
    (fun p => ⟨p.1, p.2.headSeq, p.2.headTag⟩)

def exportFreshnessManifest (mac : Mac) (ring : Option KeyRing) (db : Db) (generatedAt : Int) :
    Except DbError FreshnessManifest :=
  match ring with
  | none => .error (.config "freshness export requires the event integrity key ring")
  | some ring => do
    verifyConversations mac ring db (eventConversations db)
    let heads := freshnessHeads db
    if heads.length ≠ (eventConversations db).length then
      .error (.invariant "freshness export refused because one or more event chains lack a signed head")
    else
      match ring.currentKey with
      | none => .error (.config "freshness export key ring has no current key")
      | some key =>
        let signature := (signEvent mac key (canonicalFreshness 1 generatedAt ring.currentId heads)).bytes
        .ok { formatVersion := 1, generatedAt := generatedAt, keyId := ring.currentId, heads := heads,
              signature := signature }

def ascendingIds : List FreshnessHead → Bool
  | [] => true
  | [_] => true
  | a :: b :: heads => decide (a.conversationId < b.conversationId) && ascendingIds (b :: heads)

def verifyFreshnessManifest (mac : Mac) (ring : Option KeyRing) (manifest : FreshnessManifest) :
    Except DbError Unit :=
  let version := manifest.formatVersion
  let keyId := manifest.keyId
  if manifest.formatVersion ≠ 1 then .error (.config s!"unsupported freshness manifest version {version}")
  else if manifest.signature.length ≠ 32 ∨ !ascendingIds manifest.heads ∨
      manifest.heads.any (fun head => decide (head.sequence < 0 ∨ head.tag.length ≠ 32)) then
    .error (.tamperDetected "malformed freshness manifest")
  else
    match ring with
    | none => .error (.config "freshness verification requires the event integrity key ring")
    | some ring =>
      match ring.keyFor manifest.keyId with
      | none => .error (.tamperDetected s!"freshness manifest uses unknown key_id {keyId}")
      | some key =>
        let canonical := canonicalFreshness manifest.formatVersion manifest.generatedAt manifest.keyId manifest.heads
        if (signEvent mac key canonical).bytes ≠ manifest.signature then
          .error (.tamperDetected "freshness manifest signature mismatch")
        else .ok ()

/-! ## Comparing -/

/-- The four arms of the comparison's `match`. -/
inductive Standing | rollback | diverged | advanced | level
deriving DecidableEq

def standing (current : Option FreshnessHead) (reference : FreshnessHead) : Standing :=
  match current with
  | none => .rollback
  | some head =>
    if head.sequence < reference.sequence then .rollback
    else if head.sequence = reference.sequence ∧ head.tag ≠ reference.tag then .diverged
    else if reference.sequence < head.sequence then .advanced
    else .level

def inStanding (s : Standing) (current : List FreshnessHead) (references : List FreshnessHead) : List String :=
  (references.filter (fun r => decide
    (standing (Table.byKey FreshnessHead.conversationId r.conversationId current) r = s))).map
    FreshnessHead.conversationId

def compareFreshnessManifest (mac : Mac) (ring : Option KeyRing) (db : Db) (manifest : FreshnessManifest) :
    Except DbError FreshnessComparison := do
  verifyFreshnessManifest mac ring manifest
  let current ← exportFreshnessManifest mac ring db manifest.generatedAt
  let rollback := inStanding .rollback current.heads manifest.heads
  let diverged := inStanding .diverged current.heads manifest.heads
  let referencedIds := manifest.heads.map FreshnessHead.conversationId
  let advanced := inStanding .advanced current.heads manifest.heads ++
    (current.heads.filter (fun head => !referencedIds.contains head.conversationId)).map FreshnessHead.conversationId
  if !rollback.isEmpty then .ok (.rollbackDetected rollback)
  else if !diverged.isEmpty then .ok (.diverged diverged)
  else if !advanced.isEmpty then .ok (.databaseAdvanced advanced)
  else .ok .matches

/-! ## What a comparison checks -/

variable {m : FreshnessManifest}

theorem export_heads {at_ : Int} (h : exportFreshnessManifest mac (some ring) db at_ = .ok m) :
    m.heads = freshnessHeads db := by
  unfold exportFreshnessManifest at h
  obtain ⟨u, -, h⟩ := bind_eq_ok.1 h
  dsimp only at h
  split at h
  · cases h
  · split at h
    · cases h
    · cases h
      rfl

theorem byKey_freshnessHeads (db : Db) (c : String) :
    Table.byKey FreshnessHead.conversationId c (freshnessHeads db) =
      (loadIntegrityHead db c).map (fun head => ⟨c, head.headSeq, head.headTag⟩) := by
  have hmap : ∀ l : List (String × IntegrityHead), Table.byKey FreshnessHead.conversationId c
      (l.map (fun p => (⟨p.1, p.2.headSeq, p.2.headTag⟩ : FreshnessHead))) =
        (Table.byKey Prod.fst c l).map (fun p => ⟨p.1, p.2.headSeq, p.2.headTag⟩) := by
    intro l
    induction l with
    | nil => rfl
    | cons p l ih =>
      rw [List.map_cons, Table.byKey_cons, Table.byKey_cons, ih]
      split <;> rfl
  have hget : ∀ l : List (String × IntegrityHead), (Table.byKey Prod.fst c l).map
      (fun p => (⟨p.1, p.2.headSeq, p.2.headTag⟩ : FreshnessHead)) =
        (Table.get c l).map (fun head => ⟨c, head.headSeq, head.headTag⟩) := by
    intro l
    induction l with
    | nil => rfl
    | cons p l ih =>
      rw [Table.byKey_cons, Table.get]
      split
      · rename_i hp
        subst hp
        rfl
      · exact ih
  unfold freshnessHeads loadIntegrityHead
  rw [hmap, Table.byKey_orderBy, hget]

theorem ascendingIds_pairwise : ∀ {heads : List FreshnessHead}, ascendingIds heads = true →
    heads.Pairwise (fun a b => a.conversationId < b.conversationId)
  | [], _ => .nil
  | [_], _ => List.pairwise_singleton _ _
  | a :: b :: heads, h => by
    rw [ascendingIds, Bool.and_eq_true, decide_eq_true_eq] at h
    have ih := ascendingIds_pairwise h.2
    refine List.pairwise_cons.2 ⟨fun r hr => ?_, ih⟩
    rcases List.mem_cons.1 hr with rfl | hr
    · exact h.1
    · exact lt_trans h.1 ((List.pairwise_cons.1 ih).1 r hr)

theorem verifyFreshnessManifest_ascending (h : verifyFreshnessManifest mac (some ring) m = .ok ()) :
    ascendingIds m.heads = true := by
  unfold verifyFreshnessManifest at h
  split at h
  · cases h
  · split at h
    · cases h
    · rename_i hbad
      by_contra hasc
      exact hbad (.inr (.inl (by simpa using hasc)))

theorem compare_fresh {r : FreshnessComparison} (h : compareFreshnessManifest mac (some ring) db m = .ok r)
    (hr : r = .matches ∨ ∃ cs, r = .databaseAdvanced cs) :
    ascendingIds m.heads = true ∧ ∀ ref ∈ m.heads, ∃ head, loadIntegrityHead db ref.conversationId = some head ∧
      ref.sequence ≤ head.headSeq ∧ (head.headSeq = ref.sequence → head.headTag = ref.tag) := by
  obtain ⟨u, hverify, h⟩ := bind_eq_ok.1 h
  obtain ⟨cur, hcur, h⟩ := bind_eq_ok.1 h
  refine ⟨verifyFreshnessManifest_ascending hverify, fun ref href => ?_⟩
  rw [export_heads hcur] at h
  -- neither list that outranks the answer holds the reference
  have hnot : ∀ s, inStanding s (freshnessHeads db) m.heads = [] →
      standing (Table.byKey FreshnessHead.conversationId ref.conversationId (freshnessHeads db)) ref ≠ s := by
    intro s hs heq
    rw [inStanding, List.map_eq_nil_iff, List.filter_eq_nil_iff] at hs
    exact hs ref href (decide_eq_true heq)
  have hempty : inStanding .rollback (freshnessHeads db) m.heads = [] ∧
      inStanding .diverged (freshnessHeads db) m.heads = [] := by
    by_cases hroll : inStanding .rollback (freshnessHeads db) m.heads = []
    · by_cases hdiv : inStanding .diverged (freshnessHeads db) m.heads = []
      · exact ⟨hroll, hdiv⟩
      · rw [if_neg (by simp [hroll]), if_pos (by simpa using hdiv)] at h
        cases h
        rcases hr with hr | ⟨cs, hr⟩ <;> cases hr
    · rw [if_pos (by simpa using hroll)] at h
      cases h
      rcases hr with hr | ⟨cs, hr⟩ <;> cases hr
  have hroll := hnot _ hempty.1
  have hdiv := hnot _ hempty.2
  rw [byKey_freshnessHeads] at hroll hdiv
  cases hh : loadIntegrityHead db ref.conversationId with
  | none =>
    rw [hh] at hroll
    exact absurd rfl hroll
  | some head =>
    rw [hh] at hroll hdiv
    simp only [Option.map_some, standing] at hroll hdiv
    by_cases hlt : head.headSeq < ref.sequence
    · rw [if_pos hlt] at hroll
      exact absurd rfl hroll
    · rw [if_neg hlt] at hdiv
      refine ⟨head, rfl, by omega, fun heq => ?_⟩
      by_contra hne
      rw [if_pos ⟨heq, hne⟩] at hdiv
      exact hdiv rfl

/-! ## The chain at a sequence -/

/-- **Conversation `c` carries tag `t` at sequence `s`**: on its v2 event there, or, when the chain only starts behind
`s`, as the genesis tag over the legacy rows. -/
def CarriesTag (mac : Mac) (ring : KeyRing) (db : Db) (c : String) (s : Int) (t : List UInt8) : Prop :=
  (∃ row ∈ loadIntegrityRows db c, row.isChained ∧ row.event.seq = s ∧ row.tag = some t) ∨
    ∃ head key, loadIntegrityHead db c = some head ∧ ring.keyFor head.genesisKeyId = some key ∧
      s + 1 = head.chainStartSeq ∧
      t = (mac key (legacyGenesisCanonical c head.chainStartSeq (loadIntegrityRows db c))).bytes

/-- The first rows of the chain lead from its start to `end_`. -/
def Reaches (mac : Mac) (ring : KeyRing) (cid : String) (rows : List IntegrityRow) (head : IntegrityHead)
    (pre : List IntegrityRow) (end_ : Tag × Int) : Prop :=
  pre <+: rows.filter IntegrityRow.isChained ∧ ∃ key, ring.keyFor head.genesisKeyId = some key ∧
    Run (Linked mac ring) (mac key (legacyGenesisCanonical cid head.chainStartSeq rows), head.chainStartSeq) pre end_

variable {head : IntegrityHead}

theorem carriesTag_iff {tail : Tag} (hhead : loadIntegrityHead db c = some head)
    (hanch : Anchored mac ring c (loadIntegrityRows db c) head tail) {s : Int} {t : List UInt8} :
    CarriesTag mac ring db c s t ↔
      ∃ pre tag, Reaches mac ring c (loadIntegrityRows db c) head pre (tag, s + 1) ∧ t = tag.bytes := by
  constructor
  · rintro (⟨row, hrow, hch, hseq, htag⟩ | ⟨head', key, hhead', hkey, hs, rfl⟩)
    · obtain ⟨key, hkey, hrun⟩ := hanch.chain
      obtain ⟨pre, post, hsplit⟩ := List.append_of_mem (List.mem_filter.2 ⟨hrow, hch⟩)
      rw [hsplit] at hrun
      obtain ⟨m, hpre, ⟨tag, n⟩, hlink, -⟩ := run_append.1 hrun
      obtain ⟨hmseq, hprev, hmtag, hmnext, hmac⟩ := id hlink
      have hn : n = s + 1 := by
        rw [← hseq, hmseq]
        exact hmnext
      subst hn
      refine ⟨pre ++ [row], tag, ⟨?_, key, hkey, run_snoc.2 ⟨m, hpre, hlink⟩⟩, ?_⟩
      · rw [hsplit]
        exact ⟨post, by simp⟩
      · exact Option.mem_unique htag hmtag
    · obtain rfl : head = head' := Option.mem_unique hhead hhead'
      exact ⟨[], _, ⟨List.nil_prefix, key, hkey, by rw [hs]; rfl⟩, rfl⟩
  · rintro ⟨pre, tag, ⟨hpre, key, hkey, hrun⟩, rfl⟩
    rcases List.eq_nil_or_concat pre with rfl | ⟨init, row, rfl⟩
    · have := run_nil.1 hrun
      obtain ⟨h₁, h₂⟩ := Prod.mk.inj this
      exact .inr ⟨head, key, hhead, hkey, h₂.symm, by rw [← h₁]⟩
    · rw [List.concat_eq_append] at hpre hrun
      obtain ⟨m, -, hseq, -, htag, hnext, -⟩ := run_snoc.1 hrun
      have hmem := List.mem_filter.1 (hpre.subset (List.mem_append_right _ (List.mem_singleton.2 rfl)))
      refine .inl ⟨row, hmem.1, hmem.2, ?_, htag⟩
      have hnext : s + 1 = m.2 + 1 := hnext
      omega

/-! ## Forks -/

/-- **The chain of `p` is the beginning of the chain of `q`**: they start at one sequence under one key over the same
legacy rows, and the v2 rows of `p` are signed like the first v2 rows of `q`.  Otherwise the two have forked. -/
structure Continues (ring : KeyRing) (p q : Point) : Prop where
  start : q.head.chainStartSeq = p.head.chainStartSeq
  key : ring.keyFor q.head.genesisKeyId = ring.keyFor p.head.genesisKeyId
  legacy : (p.rows.filter IntegrityRow.isLegacy).map legacyRowBytes =
    (q.rows.filter IntegrityRow.isLegacy).map legacyRowBytes
  rows : ∃ pre, pre <+: q.rows.filter IntegrityRow.isChained ∧
    List.Forall₂ SameSigned (p.rows.filter IntegrityRow.isChained) pre

theorem Continues.reaches {p q : Point} (h : Continues ring p q) {tail qtail : Tag}
    (hp : Anchored mac ring c p.rows p.head tail) (hq : Anchored mac ring c q.rows q.head qtail) :
    ∃ pre, Reaches mac ring c q.rows q.head pre (tail, p.head.headSeq + 1) := by
  obtain ⟨pre, ⟨post, hpost⟩, hall⟩ := h.rows
  obtain ⟨key, hkey, hrun⟩ := hp.chain
  obtain ⟨qkey, hqkey, hqrun⟩ := hq.chain
  have hk : qkey = key := Option.mem_unique hqkey (h.key.trans hkey)
  subst hk
  have hgen : legacyGenesisCanonical c p.head.chainStartSeq p.rows =
      legacyGenesisCanonical c q.head.chainStartSeq q.rows := by
    unfold legacyGenesisCanonical
    rw [h.legacy, h.start]
  rw [← hpost] at hqrun
  obtain ⟨m, hpre, -⟩ := run_append.1 hqrun
  rw [hgen, ← h.start] at hrun
  have hend : (tail, p.head.headSeq + 1) = m := by
    refine run_forward (R := SameSigned) ?_ hall hrun hpre
    rintro s row m row' m' ⟨-, -, -, hnext, k, hk, hm⟩ ⟨-, -, -, hnext', k', hk', hm'⟩ ⟨hv1, hkid⟩
    rw [← hkid, hk] at hk'
    cases hk'
    exact Prod.ext (by rw [hm, hm', hv1, hkid]) (by rw [hnext, hnext'])
  rw [← hend] at hpre
  exact ⟨pre, ⟨post, hpost⟩, qkey, hqkey, hpre⟩

/-- The genesis of one point is no link of the other's chain. -/
theorem genesis_ne_link {p q : Point} (hcf : CollisionFree mac ring c (· = p) q) {u v : Point}
    (huv : u = p ∧ v = q ∨ u = q ∧ v = p) {key : List UInt8} (hkey : ring.keyFor u.head.genesisKeyId = some key)
    {m s : Tag × Int} {row : IntegrityRow} (hrow : row ∈ v.rows.filter IntegrityRow.isChained)
    (hs : s.1 = mac key (legacyGenesisCanonical c u.head.chainStartSeq u.rows)) : ¬ Linked mac ring m row s := by
  rintro ⟨-, hprev, -, -, k, hk, hm⟩
  rw [List.mem_filter] at hrow
  rcases huv with ⟨rfl, rfl⟩ | ⟨rfl, rfl⟩
  · obtain ⟨-, hbytes⟩ := hcf _ _ _ _ (.genesis rfl hkey) (.chained rfl hrow.1 hrow.2 hprev hk) (hm.symm.trans hs)
    exact chain_ne_genesis _ _ _ _ _ _ hbytes
  · obtain ⟨-, hbytes⟩ := hcf _ _ _ _ (.chained rfl hrow.1 hrow.2 hprev hk) (.genesis rfl hkey) (hs.symm.trans hm)
    exact chain_ne_genesis _ _ _ _ _ _ hbytes.symm

theorem continues_of_reaches {p q : Point} (hcf : CollisionFree mac ring c (· = p) q) (hpfits : p.Fits)
    (hbuffer : (legacyGenesisCanonical c p.head.chainStartSeq p.rows).length < 2 ^ 64) (hqfits : q.Fits)
    {tail : Tag} (hp : Anchored mac ring c p.rows p.head tail) {pre : List IntegrityRow}
    (hq : Reaches mac ring c q.rows q.head pre (tail, p.head.headSeq + 1)) : Continues ring p q := by
  obtain ⟨hfront, qkey, hqkey, hqrun⟩ := hq
  obtain ⟨key, hkey, hrun⟩ := hp.chain
  rcases Nat.le_total (p.rows.filter IntegrityRow.isChained).length pre.length with hle | hle
  · obtain ⟨skip, suf, rfl, hskip, hall⟩ := run_back_le (R := SameSigned)
      (fun s row m s' row' hl hl' => linked_back hcf rfl hpfits hqfits hl.2 (hfront.subset hl'.2) hl.1 hl'.1)
      rfl hle (run_mem hrun) (run_mem hqrun)
    rcases List.eq_nil_or_concat skip with rfl | ⟨init, row, rfl⟩
    · obtain ⟨hgen, hstart⟩ := Prod.mk.inj (run_nil.1 hskip)
      obtain ⟨hk, hbytes⟩ := hcf _ _ _ _ (.genesis rfl hkey) (.genesis rfl hqkey) hgen
      have hrows := (canonicalGenesis_inj hpfits.head.1 hqfits.head.1 hbuffer hbytes.symm).2
      rw [List.nil_append] at hfront
      exact ⟨hstart, by rw [hqkey, hkey, hk], hrows, suf, hfront, hall⟩
    · rw [List.concat_eq_append] at hskip
      obtain ⟨m, -, hlink, -⟩ := run_snoc.1 hskip
      exact absurd hlink (genesis_ne_link hcf (.inl ⟨rfl, rfl⟩) hkey (hfront.subset (by simp)) rfl)
  · obtain ⟨skip, suf, hsplit, hskip, hall⟩ := run_back_le (R := fun row' row => SameSigned row row')
      (fun s row' m s' row hl' hl =>
        have h := linked_back hcf rfl hpfits hqfits hl.2 (hfront.subset hl'.2) hl.1 hl'.1
        ⟨h.1.symm, h.2⟩) rfl hle (run_mem hqrun) (run_mem hrun)
    rcases List.eq_nil_or_concat skip with rfl | ⟨init, row, rfl⟩
    · obtain ⟨hgen, hstart⟩ := Prod.mk.inj (run_nil.1 hskip)
      obtain ⟨hk, hbytes⟩ := hcf _ _ _ _ (.genesis rfl hkey) (.genesis rfl hqkey) hgen.symm
      have hrows := (canonicalGenesis_inj hpfits.head.1 hqfits.head.1 hbuffer hbytes.symm).2
      rw [List.nil_append] at hsplit
      exact ⟨hstart.symm, by rw [hqkey, hkey, hk], hrows, pre, hfront, hsplit ▸ hall.flip⟩
    · rw [List.concat_eq_append] at hskip hsplit
      obtain ⟨m, -, hlink, -⟩ := run_snoc.1 hskip
      have hrow : row ∈ p.rows.filter IntegrityRow.isChained := by
        rw [hsplit]
        simp
      exact absurd hlink (genesis_ne_link hcf (.inr ⟨rfl, rfl⟩) hqkey hrow rfl)

/-! ## Freshness soundness -/

def Verifies (mac : Mac) (ring : KeyRing) (db : Db) : Prop :=
  ∀ c, verifyIntegrity mac (some ring) c (loadIntegrityRows db c) (loadIntegrityHead db c) = .ok ()

def Db.Fits (db : Db) : Prop := ∀ c head, loadIntegrityHead db c = some head → (pointOf db c head).Fits

/-- A reference database whose columns fit, and whose tags the MAC tells from what `db` shows the verifier. -/
structure TrustedReference (mac : Mac) (ring : KeyRing) (db₀ db : Db) : Prop where
  fits : db₀.Fits
  buffer : ∀ c head, loadIntegrityHead db₀ c = some head →
    (legacyGenesisCanonical c head.chainStartSeq (loadIntegrityRows db₀ c)).length < 2 ^ 64
  collisionFree : ∀ c head₀ head, loadIntegrityHead db₀ c = some head₀ → loadIntegrityHead db c = some head →
    CollisionFree mac ring c (· = pointOf db₀ c head₀) (pointOf db c head)

theorem Verifies.anchored (h : Verifies mac ring db) (hhead : loadIntegrityHead db c = some head) :
    ∃ tail, Anchored mac ring c (loadIntegrityRows db c) head tail := by
  have hc := h c
  rw [hhead] at hc
  exact (verifyIntegrity_head.1 hc).2

theorem head_of_manifest {at_ : Int} (hexp : exportFreshnessManifest mac (some ring) db₀ at_ = .ok m)
    (hasc : ascendingIds m.heads = true) {ref : FreshnessHead} (href : ref ∈ m.heads) :
    ∃ head₀, loadIntegrityHead db₀ ref.conversationId = some head₀ ∧ ref.sequence = head₀.headSeq ∧
      ref.tag = head₀.headTag := by
  have hnd : (m.heads.map FreshnessHead.conversationId).Nodup :=
    List.pairwise_map.2 ((ascendingIds_pairwise hasc).imp fun h => ne_of_lt h)
  have hkey := Table.byKey_eq_of_mem hnd href
  rw [export_heads hexp, byKey_freshnessHeads, Option.map_eq_some_iff] at hkey
  obtain ⟨head₀, hhead₀, heq⟩ := hkey
  exact ⟨head₀, hhead₀, by rw [← heq], by rw [← heq]⟩

/-- **Freshness soundness, where the compared heads leave it open.**  When the comparison answers `Matches` or
`DatabaseAdvanced`, the database carries every referenced tag at its sequence exactly when no referenced conversation
whose head lies past the referenced sequence has forked from the reference. -/
theorem freshness_sound_iff (hv₀ : Verifies mac ring db₀) (htrust : TrustedReference mac ring db₀ db) {at_ : Int}
    {m : FreshnessManifest} (hexp : exportFreshnessManifest mac (some ring) db₀ at_ = .ok m) (hv : Verifies mac ring db)
    (hfits : db.Fits) {r : FreshnessComparison} (hcmp : compareFreshnessManifest mac (some ring) db m = .ok r)
    (hr : r = .matches ∨ ∃ cs, r = .databaseAdvanced cs) :
    (∀ ref ∈ m.heads, CarriesTag mac ring db ref.conversationId ref.sequence ref.tag) ↔
      ∀ ref ∈ m.heads, ∀ head₀ head, loadIntegrityHead db₀ ref.conversationId = some head₀ →
        loadIntegrityHead db ref.conversationId = some head → ref.sequence < head.headSeq →
        Continues ring (pointOf db₀ ref.conversationId head₀) (pointOf db ref.conversationId head) := by
  obtain ⟨hasc, hfresh⟩ := compare_fresh hcmp hr
  refine forall₂_congr fun ref href => ?_
  obtain ⟨head₀, hhead₀, hseq₀, htag₀⟩ := head_of_manifest hexp hasc href
  obtain ⟨head, hhead, hle, hsame⟩ := hfresh ref href
  obtain ⟨tail₀, hanch₀⟩ := hv₀.anchored hhead₀
  obtain ⟨tail, hanch⟩ := hv.anchored hhead
  rw [carriesTag_iff hhead hanch]
  constructor
  · rintro ⟨pre, tag, hreach, htag⟩ head₀' head' hhead₀' hhead' -
    obtain rfl : head₀ = head₀' := Option.mem_unique hhead₀ hhead₀'
    obtain rfl : head = head' := Option.mem_unique hhead hhead'
    obtain rfl : tail₀ = tag := Tag.ext_bytes (hanch₀.headTag.symm.trans (htag₀.symm.trans htag))
    rw [hseq₀] at hreach
    exact continues_of_reaches (htrust.collisionFree _ _ _ hhead₀ hhead) (htrust.fits _ _ hhead₀)
      (htrust.buffer _ _ hhead₀) (hfits _ _ hhead) hanch₀ hreach
  · intro hcont
    rcases lt_or_eq_of_le hle with hlt | heq
    · obtain ⟨pre, hreach⟩ := (hcont head₀ head hhead₀ hhead hlt).reaches hanch₀ hanch
      exact ⟨pre, tail₀, by rw [hseq₀]; exact hreach, htag₀.trans hanch₀.headTag⟩
    · obtain ⟨key, hkey, hrun⟩ := hanch.chain
      exact ⟨_, tail, ⟨List.prefix_rfl, key, hkey, by rw [heq]; exact hrun⟩,
        (hsame heq.symm).symm.trans hanch.headTag⟩

def sampleManifest : FreshnessManifest :=
  { formatVersion := 1, generatedAt := 5, keyId := 1, heads := [⟨"c", 1, (tagOf 2).bytes⟩],
    signature := (tagOf 0).bytes }

theorem head_signedDb {c : String} (h : loadIntegrityHead (signedDb signedEvent) c = some head) :
    c = "c" ∧ head = signedHead := by
  have hmem := Table.mem_of_get h
  rw [signedDb, List.mem_singleton] at hmem
  cases hmem
  exact ⟨rfl, rfl⟩

theorem verifies_signedDb : Verifies sampleMac emptyLog.ring (signedDb signedEvent) := by
  intro c
  by_cases hc : c = "c"
  · subst hc
    exact verify_signedDb _ rfl rfl rfl
  · have hrows : loadIntegrityRows (signedDb signedEvent) c = [] := by
      simp [loadIntegrityRows, signedDb, chainedRow, plainRow, signedEvent, sampleEvent, Ne.symm hc]
    have hhead : loadIntegrityHead (signedDb signedEvent) c = none := by
      cases h : loadIntegrityHead (signedDb signedEvent) c with
      | none => rfl
      | some head => exact absurd (head_signedDb h).1 hc
    rw [hrows, hhead]
    rfl

theorem trustedReference_signedDb :
    TrustedReference sampleMac emptyLog.ring (signedDb signedEvent) (signedDb signedEvent) := by
  have hpoint : (· = pointOf (signedDb signedEvent) "c" signedHead) =
      HistoryPoint sampleMac noCodec "c" emptyLog [.append signedEvent] :=
    funext fun p => propext (historyPoint_emptyLog p).symm
  refine ⟨fun c head h => ?_, fun c head h => ?_, fun c head₀ head h _ => ?_⟩
  · obtain ⟨rfl, rfl⟩ := head_signedDb h
    exact fits_signedDb _ rfl rfl rfl
  · obtain ⟨rfl, rfl⟩ := head_signedDb h
    decide +kernel
  · obtain ⟨rfl, rfl⟩ := head_signedDb h
    rw [hpoint]
    exact (trusted_emptyLog _).collisionFree

/-- The reference database compared with its own manifest. -/
theorem freshness_sound_sample :
    compareFreshnessManifest sampleMac (some emptyLog.ring) (signedDb signedEvent) sampleManifest = .ok .matches ∧
      ∀ ref ∈ sampleManifest.heads,
        CarriesTag sampleMac emptyLog.ring (signedDb signedEvent) ref.conversationId ref.sequence ref.tag := by
  have hexp : exportFreshnessManifest sampleMac (some emptyLog.ring) (signedDb signedEvent) 5 = .ok sampleManifest := by
    decide +kernel
  have hcmp : compareFreshnessManifest sampleMac (some emptyLog.ring) (signedDb signedEvent) sampleManifest =
      .ok .matches := by
    decide +kernel
  refine ⟨hcmp, (freshness_sound_iff verifies_signedDb trustedReference_signedDb hexp verifies_signedDb
    trustedReference_signedDb.fits hcmp (.inl rfl)).2 ?_⟩
  intro ref href head₀ head _ hhead hlt
  rw [(head_signedDb hhead).2, List.mem_singleton.1 href] at hlt
  exact absurd hlt (by decide)

def checksumMac : Mac := fun key bytes => tagOf ((key ++ bytes).foldl (fun a b => a * 31 + b) 7)

def appended (evs : List EventRecord) : Log :=
  evs.foldl (fun l ev => (l.exec checksumMac noCodec (.append ev)).2) emptyLog

def forkManifest : FreshnessManifest :=
  { formatVersion := 1, generatedAt := 5, keyId := 1, heads := [⟨"c", 1, (tagOf 84).bytes⟩],
    signature := (tagOf 186).bytes }

/-- **A fork past the referenced head is reported as an advance**: the reference holds one event, the other database was
rolled back to nothing and extended by two different ones. -/
theorem fork_reported_as_advanced :
    exportFreshnessManifest checksumMac (some emptyLog.ring) (appended [sampleEvent 1]).db 5 = .ok forkManifest ∧
      compareFreshnessManifest checksumMac (some emptyLog.ring) (appended [signedEvent, sampleEvent 2]).db
        forkManifest = .ok (.databaseAdvanced ["c"]) ∧
      ¬ CarriesTag checksumMac emptyLog.ring (appended [signedEvent, sampleEvent 2]).db "c" 1 (tagOf 84).bytes := by
  refine ⟨by decide +kernel, by decide +kernel, ?_⟩
  rintro (⟨row, hrow, hcarries⟩ | ⟨head, key, hhead, -, hstart, -⟩)
  · have hnone : ∀ row ∈ loadIntegrityRows (appended [signedEvent, sampleEvent 2]).db "c",
        ¬ (row.isChained ∧ row.event.seq = 1 ∧ row.tag = some (tagOf 84).bytes) := by
      decide +kernel
    exact hnone row hrow hcarries
  · have hat : (loadIntegrityHead (appended [signedEvent, sampleEvent 2]).db "c").map IntegrityHead.chainStartSeq =
        some 1 := by
      decide +kernel
    rw [hhead] at hat
    have hat : head.chainStartSeq = 1 := Option.some.inj hat
    omega

end Execlaw
