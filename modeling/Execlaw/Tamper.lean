import Execlaw.EventHistory
/-!
# Tamper — what a rewritten log can still pass for

A `Point` is what the tables hold for one conversation at one time.  The history of a conversation is the set of points
its log went through, and `Produced` the MAC queries behind every tag stored in one of them.  The adversary rewrites rows
and head at will but stores no other tag, and the MAC does not collide between what was produced and what the rewrite
shows.  Then an accepted head is the head of a point of the history, and read backwards from its checkpoint the rows
carry the same signed bytes as that point's.  The bytes of a row leave one freedom: where the actor ends and the
payload begins.
-/
namespace Execlaw

open Wire EventHmac Steps

variable {mac : Mac} {ring : KeyRing} {codec : Codec} {cid c : String} {db db' : Db}

/-! ## Points and what was produced -/

structure Point where
  rows : List IntegrityRow
  head : IntegrityHead

def pointOf (db : Db) (cid : String) (head : IntegrityHead) : Point := ⟨loadIntegrityRows db cid, head⟩

/-- Every integer column is an `i64`. -/
structure Point.Fits (p : Point) : Prop where
  rows : ∀ row ∈ p.rows, I64 row.event.seq ∧ I64 row.event.committedAt ∧ I64 row.keyId
  head : I64 p.head.chainStartSeq ∧ I64 p.head.headSeq ∧ I64 p.head.genesisKeyId ∧ I64 p.head.keyId

/-- **The MAC queries of a history**: one for each tag a point stores, and one for its genesis. -/
inductive Produced (ring : KeyRing) (cid : String) (history : Point → Prop) : List UInt8 → List UInt8 → Prop
  | legacy {p : Point} {row : IntegrityRow} {tag key : List UInt8} : history p → row ∈ p.rows → row.isLegacy →
      row.tag = some tag → ring.keyFor row.keyId = some key → Produced ring cid history key (v1Canonical row.event)
  | genesis {p : Point} {key : List UInt8} : history p → ring.keyFor p.head.genesisKeyId = some key →
      Produced ring cid history key (legacyGenesisCanonical cid p.head.chainStartSeq p.rows)
  | chained {p : Point} {row : IntegrityRow} {prev : Tag} {key : List UInt8} : history p → row ∈ p.rows →
      row.isChained → row.prevTag = some prev.bytes → ring.keyFor row.keyId = some key →
      Produced ring cid history key (canonicalChainEvent (v1Canonical row.event) row.keyId prev)
  | checkpoint {p : Point} {tail : Tag} {key : List UInt8} : history p → p.head.headTag = tail.bytes →
      ring.keyFor p.head.keyId = some key →
      Produced ring cid history key (canonicalCheckpoint cid p.head.chainStartSeq p.head.headSeq tail
        p.head.genesisKeyId p.head.keyId)

def Point.tags (p : Point) : List (List UInt8) :=
  p.rows.filterMap IntegrityRow.tag ++ p.rows.filterMap IntegrityRow.prevTag ++ [p.head.headTag, p.head.checkpointTag]

/-- **The adversary stores no tag of its own.** -/
def StoresProduced (mac : Mac) (ring : KeyRing) (cid : String) (history : Point → Prop) (p : Point) : Prop :=
  ∀ tag ∈ p.tags, ∃ key bytes, Produced ring cid history key bytes ∧ tag = (mac key bytes).bytes

/-- **The MAC tells what was produced from what `q` shows the verifier**: no two queries of theirs, all under keys of
the ring, have one tag. -/
def CollisionFree (mac : Mac) (ring : KeyRing) (cid : String) (history : Point → Prop) (q : Point) : Prop :=
  ∀ key bytes key' bytes', Produced ring cid history key bytes → Produced ring cid (· = q) key' bytes' →
    mac key' bytes' = mac key bytes → key' = key ∧ bytes' = bytes

structure Honest (mac : Mac) (ring : KeyRing) (cid : String) (history : Point → Prop) (q : Point) : Prop where
  ready : ∀ p, history p → Ready mac ring cid p.rows p.head
  conversation : ∀ p, history p → ∀ row ∈ p.rows, row.event.conversationId = cid
  fits : ∀ p, history p → p.Fits
  buffer : ∀ p, history p → (legacyGenesisCanonical cid p.head.chainStartSeq p.rows).length < 2 ^ 64
  collisionFree : CollisionFree mac ring cid history q

variable {history : Point → Prop}

theorem head_of_history {q : Point} (h : Honest mac ring cid history q) (hfits : q.Fits)
    (hstores : StoresProduced mac ring cid history q) {tail : Tag} (hanch : Anchored mac ring cid q.rows q.head tail) :
    ∃ p, history p ∧ p.head = q.head := by
  obtain ⟨qkey, hqkey, hqcp⟩ := hanch.checkpoint
  obtain ⟨key, bytes, hprod, htag⟩ := hstores q.head.checkpointTag (by simp [Point.tags])
  obtain ⟨rfl, hbytes⟩ := h.collisionFree _ _ _ _ hprod (.checkpoint rfl hanch.headTag hqkey)
    (Tag.ext_bytes (hqcp.symm.trans htag))
  cases hprod with
  | legacy hp hrow hl ht hk =>
    have hc := h.conversation _ hp _ hrow
    unfold v1Canonical at hbytes
    rw [hc] at hbytes
    exact absurd hbytes.symm (canonicalBytes_ne_checkpoint _ _ _ _ _ _ _ _ _ _ _ (EventKind.kindClear_asStr _))
  | genesis hp hk => exact absurd hbytes (checkpoint_ne_genesis _ _ _ _ _ _ _ _)
  | chained hp hrow hch hprev hk => exact absurd hbytes (checkpoint_ne_chain _ _ _ _ _ _ _ _ _)
  | @checkpoint p ptail pkey hp hptag hpkey =>
    refine ⟨p, hp, ?_⟩
    obtain ⟨hstart, hseq, hgen, hkid⟩ := hfits.head
    obtain ⟨hstart', hseq', hgen', hkid'⟩ := (h.fits p hp).head
    obtain ⟨e₁, e₂, e₃, e₄, e₅⟩ := canonicalCheckpoint_inj hstart hstart' hseq hseq' hgen hgen' hkid hkid' hbytes
    subst e₃
    -- the point's own checkpoint signs the same bytes under the same key
    obtain ⟨ptail', hpanch⟩ := (h.ready p hp).anchored
    obtain rfl : ptail' = tail := Tag.ext_bytes (hpanch.headTag.symm.trans hptag)
    obtain ⟨pkey', hpkey', hpcp⟩ := hpanch.checkpoint
    have hcp : p.head.checkpointTag = q.head.checkpointTag := by
      rw [hpcp, hqcp, ← e₁, ← e₂, ← e₄, ← e₅]
      rw [← e₅, hqkey] at hpkey'
      cases hpkey'
      rfl
    have htag : p.head.headTag = q.head.headTag := hptag.trans hanch.headTag.symm
    cases hph : p.head
    cases hqh : q.head
    rw [hph, hqh] at e₁ e₂ e₄ e₅ hcp htag
    cases e₁; cases e₂; cases e₄; cases e₅; cases hcp; cases htag
    rfl

/-! ## The rows -/

def SameSigned (row row' : IntegrityRow) : Prop :=
  v1Canonical row.event = v1Canonical row'.event ∧ row.keyId = row'.keyId

variable {p q : Point} {row row' : IntegrityRow}

theorem linked_back (hcf : CollisionFree mac ring cid history q) (hp : history p) (hfits : p.Fits) (hqfits : q.Fits)
    (hrow : row ∈ p.rows.filter IntegrityRow.isChained) (hrow' : row' ∈ q.rows.filter IntegrityRow.isChained)
    {s s' m : Tag × Int} (hl : Linked mac ring s row m) (hl' : Linked mac ring s' row' m) :
    s = s' ∧ SameSigned row row' := by
  obtain ⟨hseq, hprev, -, hnext, k, hk, hm⟩ := hl
  obtain ⟨hseq', hprev', -, hnext', k', hk', hm'⟩ := hl'
  rw [List.mem_filter] at hrow hrow'
  obtain ⟨-, hbytes⟩ := hcf _ _ _ _ (.chained hp hrow.1 hrow.2 hprev hk)
    (.chained rfl hrow'.1 hrow'.2 hprev' hk') (hm'.symm.trans hm)
  obtain ⟨hv1, hkid, htag⟩ := canonicalChainEvent_inj (hqfits.rows _ hrow'.1).2.2 (hfits.rows _ hrow.1).2.2 hbytes
  exact ⟨Prod.ext htag.symm (by omega), hv1.symm, hkid.symm⟩

theorem rows_of_head (h : Honest mac ring cid history q) (hp : history p) (hhead : p.head = q.head) (hfits : q.Fits)
    {tail : Tag} (hanch : Anchored mac ring cid q.rows q.head tail) :
    List.Forall₂ SameSigned (p.rows.filter IntegrityRow.isChained) (q.rows.filter IntegrityRow.isChained) ∧
      (p.rows.filter IntegrityRow.isLegacy).map legacyRowBytes =
        (q.rows.filter IntegrityRow.isLegacy).map legacyRowBytes := by
  obtain ⟨ptail, hpanch⟩ := (h.ready p hp).anchored
  obtain rfl : ptail = tail := Tag.ext_bytes (hpanch.headTag.symm.trans (hhead ▸ hanch.headTag))
  obtain ⟨key, hkey, hrun⟩ := hpanch.chain
  obtain ⟨key', hkey', hrun'⟩ := hanch.chain
  have hqgen : Produced ring cid (· = q) key' (legacyGenesisCanonical cid q.head.chainStartSeq q.rows) :=
    .genesis rfl hkey'
  rw [← hhead] at hkey' hrun' hqgen
  obtain rfl : key = key' := Option.mem_unique hkey hkey'
  have hlen := (numbered_of_run hrun).2
  have hlen' := (numbered_of_run hrun').2
  have hback : ∀ s row m s' row', (Linked mac ring s row m ∧ row ∈ p.rows.filter IntegrityRow.isChained) →
      (Linked mac ring s' row' m ∧ row' ∈ q.rows.filter IntegrityRow.isChained) → s = s' ∧ SameSigned row row' :=
    fun s row m s' row' hl hl' => linked_back h.collisionFree hp (h.fits p hp) hfits hl.2 hl'.2 hl.1 hl'.1
  obtain ⟨hstart, hall⟩ := run_back hback (by omega) (run_mem hrun) (run_mem hrun')
  refine ⟨hall, ?_⟩
  obtain ⟨-, hgen⟩ := h.collisionFree _ _ _ _ (.genesis hp hkey) hqgen (congrArg Prod.fst hstart).symm
  have hI := (h.fits p hp).head.1
  exact (canonicalGenesis_inj hI hI (h.buffer p hp) hgen.symm).2

/-! ## What the signed bytes leave open -/

/-- The fields of an event, the actor up to `None` and `""`. -/
def SameContent (ev ev' : EventRecord) : Prop :=
  ev.seq = ev'.seq ∧ ev.kind = ev'.kind ∧ ev.payload = ev'.payload ∧ ev.committedAt = ev'.committedAt ∧
    ev.actor.getD "" = ev'.actor.getD ""

def actorNuls (ev : EventRecord) : Nat := (utf8 (ev.actor.getD "")).count 0

theorem canonicalBytes_append (cid : String) (s : Int) (k : String) (t : Int) (a : Option String)
    (p x : List UInt8) : canonicalBytes cid s k t a p ++ x = canonicalBytes cid s k t a (p ++ x) := by
  simp [canonicalBytes]

variable {ev ev' : EventRecord}

theorem canonical_same {x x' : List UInt8} (hcid : ev.conversationId = ev'.conversationId)
    (hI : I64 ev.seq ∧ I64 ev.committedAt) (hI' : I64 ev'.seq ∧ I64 ev'.committedAt)
    (h : v1Canonical ev ++ x = v1Canonical ev' ++ x') :
    ev.seq = ev'.seq ∧ ev.kind = ev'.kind ∧ ev.committedAt = ev'.committedAt ∧
      (actorNuls ev = actorNuls ev' → ev.actor.getD "" = ev'.actor.getD "" ∧ ev.payload ++ x = ev'.payload ++ x') := by
  unfold v1Canonical at h
  rw [canonicalBytes_append, canonicalBytes_append, hcid] at h
  have hk : (utf8 ev.kind.asStr).count 0 = (utf8 ev'.kind.asStr).count 0 := by
    rw [EventKind.count_zero_asStr, EventKind.count_zero_asStr]
  obtain ⟨hseq, hkind, htime, hrest⟩ := canonicalBytes_inj hI.1 hI'.1 hI.2 hI'.2 hk h
  have hkind' : ev.kind = ev'.kind := by
    rw [← EventKind.parse_asStr ev.kind, hkind, EventKind.parse_asStr]
  exact ⟨hseq, hkind', htime, hrest⟩

theorem actorNuls_of_same (h : SameContent ev ev') : actorNuls ev = actorNuls ev' := by
  unfold actorNuls
  rw [h.2.2.2.2]

theorem sameContent_iff (hcid : ev.conversationId = ev'.conversationId) (hI : I64 ev.seq ∧ I64 ev.committedAt)
    (hI' : I64 ev'.seq ∧ I64 ev'.committedAt) (h : v1Canonical ev = v1Canonical ev') :
    SameContent ev ev' ↔ actorNuls ev = actorNuls ev' := by
  refine ⟨actorNuls_of_same, fun hn => ?_⟩
  have hbytes : v1Canonical ev ++ [] = v1Canonical ev' ++ [] := by rw [h]
  obtain ⟨hseq, hkind, htime, hrest⟩ := canonical_same hcid hI hI' hbytes
  obtain ⟨hactor, hpay⟩ := hrest hn
  rw [List.append_nil, List.append_nil] at hpay
  exact ⟨hseq, hkind, hpay, htime, hactor⟩

def legacyTrailer (row : IntegrityRow) : List UInt8 :=
  leI64 row.keyId ++ match row.tag with
    | some tag => leU64 tag.length ++ tag
    | none => leU64 0

theorem length_legacyTrailer {row : IntegrityRow} (h : LegacyOk mac ring row) :
    (legacyTrailer row).length = if row.tag.isSome then 48 else 16 := by
  unfold legacyTrailer
  cases htag : row.tag with
  | none => simp
  | some tag =>
    obtain ⟨key, -, hb⟩ := h tag htag
    have := (mac key (v1Canonical row.event)).len
    rw [← hb] at this
    simp [this]

/-- **A legacy row committed to alike is alike exactly when the actors hold equally many NULs and both rows carry a tag or
neither does.** -/
theorem sameContent_legacy_iff (hcid : row.event.conversationId = row'.event.conversationId)
    (hI : I64 row.event.seq ∧ I64 row.event.committedAt) (hI' : I64 row'.event.seq ∧ I64 row'.event.committedAt)
    (hok : LegacyOk mac ring row) (hok' : LegacyOk mac ring row') (h : legacyRowBytes row = legacyRowBytes row') :
    SameContent row.event row'.event ↔
      actorNuls row.event = actorNuls row'.event ∧ row.tag.isSome = row'.tag.isSome := by
  have hbytes : v1Canonical row.event ++ legacyTrailer row = v1Canonical row'.event ++ legacyTrailer row' := h
  obtain ⟨hseq, hkind, htime, hrest⟩ := canonical_same hcid hI hI' hbytes
  have hlen := length_legacyTrailer hok
  have hlen' := length_legacyTrailer hok'
  constructor
  · intro hsame
    refine ⟨actorNuls_of_same hsame, ?_⟩
    obtain ⟨-, hpay⟩ := hrest (actorNuls_of_same hsame)
    rw [hsame.2.2.1] at hpay
    rw [List.append_cancel_left hpay, hlen'] at hlen
    cases hs : row.tag.isSome <;> cases hs' : row'.tag.isSome <;> simp [hs, hs'] at hlen ⊢
  · rintro ⟨hn, htag⟩
    obtain ⟨hactor, hpay⟩ := hrest hn
    rw [htag, ← hlen'] at hlen
    exact ⟨hseq, hkind, (List.append_inj' hpay hlen).1, htime, hactor⟩

/-! ## The history of a run -/

variable {calls : List Call} {l l' : Log}

theorem retains_run (hkey : ∃ key, l.ring.currentKey = some key) (hrun : Run (Log.Step mac codec) l calls l') :
    l'.ring.Retains l.ring := by
  refine (run_invariant (P := fun v => v.ring.Retains l.ring ∧ ∃ key, v.ring.currentKey = some key) hrun
    ⟨fun _ _ h => h, hkey⟩ ?_).1
  rintro v call _ ⟨hv, hvkey⟩ ⟨hadm, rfl⟩
  obtain ⟨hret, hcur⟩ := @ring_exec mac codec v call hadm hvkey
  exact ⟨fun id k h => hret id k (hv id k h), hcur⟩

/-- **The points of a run**: what the tables held for `c` before, between and after its calls, once there was a head. -/
def HistoryPoint (mac : Mac) (codec : Codec) (c : String) (l : Log) (calls : List Call) (p : Point) : Prop :=
  ∃ pre post v, calls = pre ++ post ∧ Run (Log.Step mac codec) l pre v ∧ loadIntegrityHead v.db c = some p.head ∧
    loadIntegrityRows v.db c = p.rows

theorem step_unique {l m m' : Log} (h : Run (Log.Step mac codec) l calls m) (h' : Run (Log.Step mac codec) l calls m') :
    m = m' := by
  induction calls generalizing l with
  | nil => exact (run_nil.1 h).symm.trans (run_nil.1 h')
  | cons call calls ih =>
    obtain ⟨a, ⟨-, rfl⟩, ha⟩ := h
    obtain ⟨b, ⟨-, rfl⟩, hb⟩ := h'
    exact ih ha hb

theorem ready_historyPoint (hstart : l.Start mac c) (hrun : Run (Log.Step mac codec) l calls l') {p : Point}
    (hp : HistoryPoint mac codec c l calls p) :
    Ready mac l'.ring c p.rows p.head ∧ ∀ row ∈ p.rows, row.event.conversationId = c := by
  obtain ⟨pre, post, v, rfl, hpre, hhead, hrows⟩ := hp
  obtain ⟨v', hpre', hpost⟩ := run_append.1 hrun
  obtain rfl := step_unique hpre hpre'
  have hs := sound_run hpre hstart.sound
  have hi := hs.intact.retains (retains_run hs.key hpost)
  unfold Intact at hi
  rw [hhead, hrows] at hi
  refine ⟨hi, fun row hrow => ?_⟩
  rw [← hrows] at hrow
  exact conversationId_of_mem_load hrow

structure Trusted (mac : Mac) (codec : Codec) (c : String) (l : Log) (calls : List Call) (ring : KeyRing) (q : Point) :
    Prop where
  fits : ∀ p, HistoryPoint mac codec c l calls p → p.Fits
  buffer : ∀ p, HistoryPoint mac codec c l calls p →
    (legacyGenesisCanonical c p.head.chainStartSeq p.rows).length < 2 ^ 64
  collisionFree : CollisionFree mac ring c (HistoryPoint mac codec c l calls) q

theorem honest_run {q : Point} (hstart : l.Start mac c) (hrun : Run (Log.Step mac codec) l calls l')
    (ht : Trusted mac codec c l calls l'.ring q) : Honest mac l'.ring c (HistoryPoint mac codec c l calls) q :=
  ⟨fun _ hp => (ready_historyPoint hstart hrun hp).1, fun _ hp => (ready_historyPoint hstart hrun hp).2, ht.fits,
    ht.buffer, ht.collisionFree⟩

/-! ## Tamper evidence -/

theorem forall₂_iff_of_forall₂ {α β : Type} {R A B : α → β → Prop} {l : List α} {l' : List β} (h : List.Forall₂ R l l')
    (hAB : ∀ a ∈ l, ∀ b ∈ l', R a b → (A a b ↔ B a b)) : List.Forall₂ A l l' ↔ List.Forall₂ B l l' := by
  rw [List.forall₂_iff_zip] at h ⊢
  rw [List.forall₂_iff_zip]
  refine and_congr_right fun _ => forall_congr' fun a => forall_congr' fun b => imp_congr_right fun hab => ?_
  have hmem := List.of_mem_zip hab
  exact hAB a hmem.1 b hmem.2 (h.2 hab)

/-- **The same events**: row by row, v2 rows and legacy rows. -/
def SameRows (rows rows' : List IntegrityRow) : Prop :=
  List.Forall₂ (fun row row' => SameContent row.event row'.event) (rows.filter IntegrityRow.isChained)
      (rows'.filter IntegrityRow.isChained) ∧
    List.Forall₂ (fun row row' => SameContent row.event row'.event) (rows.filter IntegrityRow.isLegacy)
      (rows'.filter IntegrityRow.isLegacy)

/-- **The same cuts**: row by row the actors hold equally many NULs, and a legacy row carries a tag in both or in
neither. -/
def SameCuts (rows rows' : List IntegrityRow) : Prop :=
  List.Forall₂ (fun row row' => actorNuls row.event = actorNuls row'.event) (rows.filter IntegrityRow.isChained)
      (rows'.filter IntegrityRow.isChained) ∧
    List.Forall₂ (fun row row' => actorNuls row.event = actorNuls row'.event ∧ row.tag.isSome = row'.tag.isSome)
      (rows.filter IntegrityRow.isLegacy) (rows'.filter IntegrityRow.isLegacy)

theorem sameRows_iff (h : Honest mac ring cid history q) (hp : history p) (hhead : p.head = q.head) (hfits : q.Fits)
    (hcid : ∀ row ∈ q.rows, row.event.conversationId = cid)
    (hlegacy : ∀ row ∈ q.rows, row.isLegacy → LegacyOk mac ring row) {tail : Tag}
    (hanch : Anchored mac ring cid q.rows q.head tail) : SameRows p.rows q.rows ↔ SameCuts p.rows q.rows := by
  obtain ⟨hchained, hold⟩ := rows_of_head h hp hhead hfits hanch
  have hold' : List.Forall₂ (fun row row' => legacyRowBytes row = legacyRowBytes row')
      (p.rows.filter IntegrityRow.isLegacy) (q.rows.filter IntegrityRow.isLegacy) := by
    rw [← List.forall₂_eq_eq_eq, List.forall₂_map_left_iff, List.forall₂_map_right_iff] at hold
    exact hold
  have hI := (h.fits p hp).rows
  refine and_congr (forall₂_iff_of_forall₂ hchained fun row hrow row' hrow' hs => ?_)
    (forall₂_iff_of_forall₂ hold' fun row hrow row' hrow' hs => ?_)
  · rw [List.mem_filter] at hrow hrow'
    exact sameContent_iff ((h.conversation p hp row hrow.1).trans (hcid row' hrow'.1).symm)
      ⟨(hI row hrow.1).1, (hI row hrow.1).2.1⟩ ⟨(hfits.rows row' hrow'.1).1, (hfits.rows row' hrow'.1).2.1⟩ hs.1
  · rw [List.mem_filter] at hrow hrow'
    exact sameContent_legacy_iff ((h.conversation p hp row hrow.1).trans (hcid row' hrow'.1).symm)
      ⟨(hI row hrow.1).1, (hI row hrow.1).2.1⟩ ⟨(hfits.rows row' hrow'.1).1, (hfits.rows row' hrow'.1).2.1⟩
      ((h.ready p hp).legacy row hrow.1 hrow.2) (hlegacy row' hrow'.1 hrow'.2) hs

/-- **Tamper evidence.**  An accepted rewrite whose head row is present carries the head of a point of the history; and
its events are that point's, row by row, exactly when its actors are cut from their payloads where that point's are. -/
theorem tamper_evident_iff {l l' : Log} {calls : List Call} (hstart : l.Start mac c)
    (hrun : Run (Log.Step mac codec) l calls l') {head : IntegrityHead}
    (htrust : Trusted mac codec c l calls l'.ring (pointOf db' c head))
    (hhead : loadIntegrityHead db' c = some head) (hfits : (pointOf db' c head).Fits)
    (hstores : StoresProduced mac l'.ring c (HistoryPoint mac codec c l calls) (pointOf db' c head))
    (hok : verifyIntegrity mac (some l'.ring) c (loadIntegrityRows db' c) (loadIntegrityHead db' c) = .ok ()) :
    (∃ p, HistoryPoint mac codec c l calls p ∧ p.head = head) ∧
      ∀ p, HistoryPoint mac codec c l calls p → p.head = head →
        (SameRows p.rows (loadIntegrityRows db' c) ↔ SameCuts p.rows (loadIntegrityRows db' c)) := by
  have hhonest := honest_run hstart hrun htrust
  rw [hhead] at hok
  obtain ⟨hlegacy, tail, hanch⟩ := verifyIntegrity_head.1 hok
  refine ⟨head_of_history hhonest hfits hstores hanch, fun p hp hph => ?_⟩
  exact sameRows_iff hhonest hp hph hfits (fun row hrow => conversationId_of_mem_load hrow) hlegacy hanch

/-! ### A sample history

One signed append under a MAC with three produced queries. -/

def tagOf (n : UInt8) : Tag := ⟨List.replicate 32 n, List.length_replicate⟩

def signedEvent : EventRecord :=
  { sampleEvent 1 with payload := utf8 "EXECLAW-EVENT\x00hi" }

def forgedEvent : EventRecord :=
  { sampleEvent 1 with payload := utf8 "hi", actor := some "\x00EXECLAW-EVENT" }

def genesisQuery : List UInt8 := canonicalGenesis "c" 1 []

def chainQuery : List UInt8 := canonicalChainEvent (v1Canonical signedEvent) 1 (tagOf 1)

def checkpointQuery : List UInt8 := canonicalCheckpoint "c" 1 1 (tagOf 2) 1 1

def sampleMac : Mac := fun key bytes =>
  if key = [1] then
    if bytes = genesisQuery then tagOf 1
    else if bytes = chainQuery then tagOf 2
    else if bytes = checkpointQuery then tagOf 3
    else tagOf 0
  else tagOf 0

def emptyLog : Log := { db := {}, ring := KeyRing.single 1 [1], committed := [] }

def signedHead : IntegrityHead :=
  { chainStartSeq := 1, headSeq := 1, headTag := (tagOf 2).bytes, genesisKeyId := 1, keyId := 1,
    checkpointTag := (tagOf 3).bytes }

def signedDb (ev : EventRecord) : Db :=
  { events := [chainedRow ev (tagOf 2) 1 (tagOf 1)], heads := [("c", signedHead)] }

theorem exec_emptyLog : (emptyLog.exec sampleMac noCodec (.append signedEvent)).2.db = signedDb signedEvent := by
  decide +kernel

theorem run_emptyLog : Run (Log.Step sampleMac noCodec) emptyLog [.append signedEvent]
    (emptyLog.exec sampleMac noCodec (.append signedEvent)).2 := ⟨_, ⟨trivial, rfl⟩, rfl⟩

theorem start_emptyLog : emptyLog.Start sampleMac "c" :=
  ⟨⟨[1], rfl⟩, ⟨List.Pairwise.nil, by decide, fun _ h => absurd h List.not_mem_nil, le_rfl⟩, rfl, rfl⟩

theorem historyPoint_emptyLog (p : Point) : HistoryPoint sampleMac noCodec "c" emptyLog [.append signedEvent] p ↔
    p = pointOf (signedDb signedEvent) "c" signedHead := by
  constructor
  · rintro ⟨pre, post, v, hcalls, hpre, hhead, hrows⟩
    cases pre with
    | nil =>
      rw [run_nil] at hpre
      subst hpre
      cases hhead
    | cons call pre =>
      obtain ⟨rfl, hnil⟩ := List.cons.inj hcalls
      obtain ⟨rfl, rfl⟩ := List.append_eq_nil_iff.1 hnil.symm
      obtain rfl := step_unique hpre run_emptyLog
      rw [exec_emptyLog] at hhead hrows
      cases p
      cases hhead
      cases hrows
      rfl
  · rintro rfl
    refine ⟨[.append signedEvent], [], _, rfl, run_emptyLog, ?_, ?_⟩ <;> rw [exec_emptyLog] <;> rfl

theorem load_signedDb (ev : EventRecord) (h : ev.conversationId = "c") : loadIntegrityRows (signedDb ev) "c" =
    [(chainedRow ev (tagOf 2) 1 (tagOf 1)).toIntegrityRow] := by
  simp [loadIntegrityRows, signedDb, chainedRow, plainRow, h, Table.orderBy]

theorem fits_signedDb (ev : EventRecord) (h : ev.conversationId = "c") (hseq : ev.seq = 1) (htime : ev.committedAt = 0) :
    (pointOf (signedDb ev) "c" signedHead).Fits := by
  have h₀ : I64 0 := by decide
  have h₁ : I64 1 := by decide
  refine ⟨fun row hrow => ?_, h₁, h₁, h₁, h₁⟩
  rw [pointOf, load_signedDb ev h, List.mem_singleton] at hrow
  rw [hrow, event_chainedRow, hseq, htime]
  exact ⟨h₁, h₀, h₁⟩

variable {key bytes : List UInt8}

theorem sampleMac_eq {n : UInt8} (h : sampleMac key bytes = tagOf n) (hn : n ≠ 0) :
    key = [1] ∧ (n = 1 ∧ bytes = genesisQuery ∨ n = 2 ∧ bytes = chainQuery ∨ n = 3 ∧ bytes = checkpointQuery) := by
  have hinj : ∀ a b : UInt8, tagOf a = tagOf b → a = b := fun a b hab => by
    have := congrArg (fun t : Tag => t.bytes.head?) hab
    exact Option.some.inj this
  unfold sampleMac at h
  split at h
  · split at h
    · exact ⟨‹_›, .inl ⟨(hinj _ _ h).symm, ‹_›⟩⟩
    · split at h
      · exact ⟨‹_›, .inr (.inl ⟨(hinj _ _ h).symm, ‹_›⟩)⟩
      · split at h
        · exact ⟨‹_›, .inr (.inr ⟨(hinj _ _ h).symm, ‹_›⟩)⟩
        · exact absurd (hinj _ _ h).symm hn
  · exact absurd (hinj _ _ h).symm hn

theorem produced_emptyLog
    (h : Produced emptyLog.ring "c" (HistoryPoint sampleMac noCodec "c" emptyLog [.append signedEvent]) key bytes) :
    key = [1] ∧ (bytes = genesisQuery ∨ bytes = chainQuery ∨ bytes = checkpointQuery) := by
  have hrow : ∀ {row : IntegrityRow}, row ∈ (pointOf (signedDb signedEvent) "c" signedHead).rows →
      row = (chainedRow signedEvent (tagOf 2) 1 (tagOf 1)).toIntegrityRow := fun hrow => by
    rwa [pointOf, load_signedDb _ rfl, List.mem_singleton] at hrow
  cases h with
  | legacy hp hmem hl =>
    cases (historyPoint_emptyLog _).1 hp
    rw [hrow hmem] at hl
    cases hl
  | genesis hp hk =>
    cases (historyPoint_emptyLog _).1 hp
    exact ⟨(Option.some.inj hk).symm, .inl rfl⟩
  | chained hp hmem _ hprev hk =>
    cases (historyPoint_emptyLog _).1 hp
    rw [hrow hmem] at hprev hk ⊢
    obtain rfl := Tag.ext_bytes (Option.some.inj hprev)
    rw [event_chainedRow]
    exact ⟨(Option.some.inj hk).symm, .inr (.inl rfl)⟩
  | checkpoint hp htag hk =>
    cases (historyPoint_emptyLog _).1 hp
    obtain rfl := Tag.ext_bytes htag
    exact ⟨(Option.some.inj hk).symm, .inr (.inr rfl)⟩

theorem sampleMac_queries : sampleMac [1] genesisQuery = tagOf 1 ∧ sampleMac [1] chainQuery = tagOf 2 ∧
    sampleMac [1] checkpointQuery = tagOf 3 := by
  decide +kernel

theorem trusted_emptyLog (q : Point) :
    Trusted sampleMac noCodec "c" emptyLog [.append signedEvent] emptyLog.ring q := by
  refine ⟨fun p hp => ?_, fun p hp => ?_, fun key bytes key' bytes' hprod _ heq => ?_⟩
  · cases (historyPoint_emptyLog p).1 hp
    exact fits_signedDb signedEvent rfl rfl rfl
  · cases (historyPoint_emptyLog p).1 hp
    decide +kernel
  · obtain ⟨hg, hch, hcp⟩ := sampleMac_queries
    obtain ⟨rfl, rfl | rfl | rfl⟩ := produced_emptyLog hprod
    · rw [hg] at heq
      simpa using sampleMac_eq heq (by decide)
    · rw [hch] at heq
      simpa using sampleMac_eq heq (by decide)
    · rw [hcp] at heq
      simpa using sampleMac_eq heq (by decide)

theorem stores_signedDb (ev : EventRecord) (h : ev.conversationId = "c") :
    StoresProduced sampleMac emptyLog.ring "c" (HistoryPoint sampleMac noCodec "c" emptyLog [.append signedEvent])
      (pointOf (signedDb ev) "c" signedHead) := by
  have hp := (historyPoint_emptyLog _).2 rfl
  obtain ⟨hg, hch, hcp⟩ := sampleMac_queries
  have hmem : (chainedRow signedEvent (tagOf 2) 1 (tagOf 1)).toIntegrityRow ∈
      (pointOf (signedDb signedEvent) "c" signedHead).rows := by
    rw [pointOf, load_signedDb _ rfl]
    exact List.mem_singleton.2 rfl
  have hgenesis := @Produced.genesis emptyLog.ring "c" _ _ [1] hp rfl
  have hchained := @Produced.chained emptyLog.ring "c" _ _ _ (tagOf 1) [1] hp hmem rfl rfl rfl
  have hcheck := @Produced.checkpoint emptyLog.ring "c" _ _ (tagOf 2) [1] hp rfl rfl
  rw [event_chainedRow] at hchained
  have h₁ : (tagOf 1).bytes = (sampleMac [1] genesisQuery).bytes := congrArg Tag.bytes hg.symm
  have h₂ : (tagOf 2).bytes = (sampleMac [1] chainQuery).bytes := congrArg Tag.bytes hch.symm
  have h₃ : (tagOf 3).bytes = (sampleMac [1] checkpointQuery).bytes := congrArg Tag.bytes hcp.symm
  intro tag htag
  have htag : tag = (tagOf 2).bytes ∨ tag = (tagOf 1).bytes ∨ tag = (tagOf 2).bytes ∨ tag = (tagOf 3).bytes := by
    unfold Point.tags pointOf at htag
    rw [load_signedDb ev h] at htag
    simpa [chainedRow, plainRow, EventRow.toIntegrityRow, signedHead] using htag
  rcases htag with rfl | rfl | rfl | rfl
  · exact ⟨[1], _, hchained, h₂⟩
  · exact ⟨[1], _, hgenesis, h₁⟩
  · exact ⟨[1], _, hchained, h₂⟩
  · exact ⟨[1], _, hcheck, h₃⟩

theorem verify_signedDb (ev : EventRecord) (h : ev.conversationId = "c") (hseq : ev.seq = 1)
    (hv1 : v1Canonical ev = v1Canonical signedEvent) :
    verifyIntegrity sampleMac (some emptyLog.ring) "c" (loadIntegrityRows (signedDb ev) "c")
      (loadIntegrityHead (signedDb ev) "c") = .ok () := by
  obtain ⟨hg, hch, hcp⟩ := sampleMac_queries
  rw [load_signedDb ev h]
  refine verifyIntegrity_head.2 ⟨fun row hrow hl => ?_, tagOf 2, by decide, ⟨[1], rfl, ?_⟩, rfl, [1], rfl,
    congrArg Tag.bytes hcp.symm⟩
  · rw [List.mem_singleton.1 hrow] at hl
    cases hl
  · have hgen : sampleMac [1] (legacyGenesisCanonical "c" signedHead.chainStartSeq
        [(chainedRow ev (tagOf 2) 1 (tagOf 1)).toIntegrityRow]) = tagOf 1 := hg
    rw [hgen]
    refine ⟨(tagOf 2, 2), ⟨?_, rfl, rfl, rfl, [1], rfl, ?_⟩, rfl⟩
    · rw [event_chainedRow]
      exact hseq
    · rw [event_chainedRow, hv1]
      exact hch.symm

/-- The untouched tables, accepted: their events are the point's, since no actor holds a NUL. -/
theorem tamper_evident_sample :
    (∃ p, HistoryPoint sampleMac noCodec "c" emptyLog [.append signedEvent] p ∧ p.head = signedHead) ∧
      (SameRows (loadIntegrityRows (signedDb signedEvent) "c") (loadIntegrityRows (signedDb signedEvent) "c") ↔
        SameCuts (loadIntegrityRows (signedDb signedEvent) "c") (loadIntegrityRows (signedDb signedEvent) "c")) := by
  have hhead : loadIntegrityHead (signedDb signedEvent) "c" = some signedHead := rfl
  obtain ⟨hex, hiff⟩ := tamper_evident_iff start_emptyLog run_emptyLog (trusted_emptyLog _) hhead
    (fits_signedDb _ rfl rfl rfl) (stores_signedDb _ rfl) (verify_signedDb _ rfl rfl rfl)
  exact ⟨hex, hiff _ ((historyPoint_emptyLog _).2 rfl) rfl⟩

/-- **A NUL moved into the actor goes unseen**: every tag stored was produced, the log verifies, and the event is none
that was ever committed. -/
theorem forged_actor_accepted :
    emptyLog.Start sampleMac "c" ∧
      Trusted sampleMac noCodec "c" emptyLog [.append signedEvent] emptyLog.ring
        (pointOf (signedDb forgedEvent) "c" signedHead) ∧
      StoresProduced sampleMac emptyLog.ring "c" (HistoryPoint sampleMac noCodec "c" emptyLog [.append signedEvent])
        (pointOf (signedDb forgedEvent) "c" signedHead) ∧
      (pointOf (signedDb forgedEvent) "c" signedHead).Fits ∧
      verifyIntegrity sampleMac (some emptyLog.ring) "c" (loadIntegrityRows (signedDb forgedEvent) "c")
        (loadIntegrityHead (signedDb forgedEvent) "c") = .ok () ∧
      ¬ ∃ p, HistoryPoint sampleMac noCodec "c" emptyLog [.append signedEvent] p ∧
        SameRows p.rows (loadIntegrityRows (signedDb forgedEvent) "c") := by
  refine ⟨start_emptyLog, trusted_emptyLog _, stores_signedDb _ rfl, fits_signedDb _ rfl rfl rfl,
    verify_signedDb _ rfl rfl (by decide +kernel), ?_⟩
  rintro ⟨p, hp, hsame, -⟩
  cases (historyPoint_emptyLog p).1 hp
  rw [pointOf, load_signedDb _ rfl, load_signedDb _ rfl] at hsame
  simp only [List.filter_cons, isChained_chainedRow, if_true, List.filter_nil, List.forall₂_cons, event_chainedRow]
    at hsame
  exact absurd hsame.1.2.2.1 (by decide +kernel)

/-! ## Downgrades -/

end Execlaw
