import Execlaw.EventVerify
/-!
# EventWrite — what the writers keep

`Ready` is the log's invariant for one conversation while a head is at hand, `Intact` for the stored tables: rows,
genesis, head and checkpoint agree, and the last row's sequence is the head's.  One signed insert keeps `Ready`
(`signAndInsert_spec`); the loop of a commit and a single append are both built on it.  Every write to one conversation
leaves the rows and the head of every other as they were.
-/
namespace Execlaw

open Wire EventHmac Steps

variable {mac : Mac} {ring : KeyRing} {codec : Codec} {cid : String} {db db' : Db}

/-! ## Loading -/

def tailSeq (rows : List IntegrityRow) : Int := (rows.getLast?.map (fun row => row.event.seq)).getD 0

@[simp] theorem tailSeq_snoc (rows : List IntegrityRow) (row : IntegrityRow) :
    tailSeq (rows ++ [row]) = row.event.seq := by
  simp [tailSeq]

def Ascending (rows : List IntegrityRow) : Prop := rows.Pairwise (fun a b => a.event.seq < b.event.seq)

theorem loadIntegrityRows_congr (h : db'.events = db.events) (cid : String) :
    loadIntegrityRows db' cid = loadIntegrityRows db cid := by
  unfold loadIntegrityRows
  rw [h]

theorem loadIntegrityHead_congr (h : db'.heads = db.heads) (cid : String) :
    loadIntegrityHead db' cid = loadIntegrityHead db cid := by
  unfold loadIntegrityHead
  rw [h]

variable {row : IntegrityRow}

theorem mem_loadIntegrityRows :
    row ∈ loadIntegrityRows db cid ↔ ∃ r ∈ db.events, r.conversationId = cid ∧ r.toIntegrityRow = row := by
  unfold loadIntegrityRows
  simp only [List.mem_map, Table.mem_orderBy, List.mem_filter, decide_eq_true_eq, and_assoc]

theorem conversationId_of_mem_load (h : row ∈ loadIntegrityRows db cid) : row.event.conversationId = cid := by
  obtain ⟨r, -, hr, rfl⟩ := mem_loadIntegrityRows.1 h
  exact hr

theorem load_pairwise_le (db : Db) (cid : String) :
    (loadIntegrityRows db cid).Pairwise (fun a b => a.event.seq ≤ b.event.seq) :=
  List.pairwise_map.2 (Table.pairwise_orderBy EventRow.seq _)

variable {rows : List IntegrityRow}

theorem seq_le_tailSeq_of_pairwise (hpw : rows.Pairwise (fun a b => a.event.seq ≤ b.event.seq)) (h : row ∈ rows) :
    row.event.seq ≤ tailSeq rows := by
  have hne : rows ≠ [] := List.ne_nil_of_mem h
  obtain ⟨init, last, rfl⟩ : ∃ init last, rows = init ++ [last] := ⟨_, _, (List.dropLast_append_getLast hne).symm⟩
  rw [tailSeq_snoc]
  rcases List.mem_append.1 h with h | h
  · exact (List.pairwise_append.1 hpw).2.2 row h last (by simp)
  · rw [List.mem_singleton] at h
    rw [h]

theorem seq_le_tailSeq (h : row ∈ loadIntegrityRows db cid) : row.event.seq ≤ tailSeq (loadIntegrityRows db cid) :=
  seq_le_tailSeq_of_pairwise (load_pairwise_le db cid) h

theorem Ascending.seq_le (hasc : Ascending rows) (h : row ∈ rows) : row.event.seq ≤ tailSeq rows :=
  seq_le_tailSeq_of_pairwise (hasc.imp fun h => le_of_lt h) h

theorem Ascending.snoc (hasc : Ascending rows) (h : tailSeq rows < row.event.seq) : Ascending (rows ++ [row]) := by
  refine List.pairwise_append.2 ⟨hasc, List.pairwise_singleton _ _, fun a ha b hb => ?_⟩
  rw [List.mem_singleton.1 hb]
  exact lt_of_le_of_lt (hasc.seq_le ha) h

/-! ## One insert -/

theorem insertEvent_eq {row : EventRow} (h : insertEvent row db = .ok db') : db' = db.addEvent row := by
  unfold insertEvent at h
  split at h
  · cases h
  · cases h
    rfl

theorem load_addEvent_of_ne {row : EventRow} (h : row.conversationId ≠ cid) :
    loadIntegrityRows (db.addEvent row) cid = loadIntegrityRows db cid := by
  simp [loadIntegrityRows, Db.addEvent, h]

theorem load_addEvent_last {row : EventRow} (hrow : row.conversationId = cid)
    (hlast : tailSeq (loadIntegrityRows db cid) < row.seq) :
    loadIntegrityRows (db.addEvent row) cid =
      loadIntegrityRows db cid ++ [row.toIntegrityRow] := by
  have hlt : ∀ r ∈ db.events.filter (fun r => decide (r.conversationId = cid)), r.seq < row.seq := by
    intro r hr
    rw [List.mem_filter, decide_eq_true_eq] at hr
    exact lt_of_le_of_lt (seq_le_tailSeq (mem_loadIntegrityRows.2 ⟨r, hr.1, hr.2, rfl⟩)) hlast
  unfold loadIntegrityRows Db.addEvent
  simp only [List.filter_cons, hrow, decide_true, if_true]
  rw [Table.orderBy_cons_last EventRow.seq hlt, List.map_append]
  rfl

theorem insertEvent_last {row : EventRow} (hrow : row.conversationId = cid)
    (hlast : tailSeq (loadIntegrityRows db cid) < row.seq) :
    insertEvent row db = .ok (db.addEvent row) := by
  unfold insertEvent
  rw [if_neg]
  rw [List.any_eq_true]
  rintro ⟨r, hr, hkey⟩
  rw [decide_eq_true_eq] at hkey
  have hle := seq_le_tailSeq (mem_loadIntegrityRows.2 ⟨r, hr, hkey.1.trans hrow, rfl⟩)
  have : r.seq ≤ tailSeq (loadIntegrityRows db cid) := hle
  omega

@[simp] theorem event_plainRow (ev : EventRecord) : (plainRow ev).toIntegrityRow.event = ev := by
  simp [plainRow, EventRow.toIntegrityRow, EventKind.parse_asStr]

@[simp] theorem event_chainedRow (ev : EventRecord) (tag : Tag) (keyId : Int) (prev : Tag) :
    (chainedRow ev tag keyId prev).toIntegrityRow.event = ev := event_plainRow ev

@[simp] theorem isLegacy_chainedRow (ev : EventRecord) (tag : Tag) (keyId : Int) (prev : Tag) :
    (chainedRow ev tag keyId prev).toIntegrityRow.isLegacy = false := rfl

@[simp] theorem isChained_chainedRow (ev : EventRecord) (tag : Tag) (keyId : Int) (prev : Tag) :
    (chainedRow ev tag keyId prev).toIntegrityRow.isChained = true := rfl

/-! ## The invariant -/

/-- **Rows and head agree**: what the verifier checks, and that the head stands at the last row. -/
structure Ready (mac : Mac) (ring : KeyRing) (cid : String) (rows : List IntegrityRow) (head : IntegrityHead) :
    Prop where
  ascending : Ascending rows
  version : ∀ row ∈ rows, row.isLegacy ∨ row.isChained
  legacy : ∀ row ∈ rows, row.isLegacy → LegacyOk mac ring row
  before : ∀ row ∈ rows, row.isLegacy → row.event.seq < head.chainStartSeq
  tail : tailSeq rows = head.headSeq
  anchored : ∃ tail, Anchored mac ring cid rows head tail

/-- **Rows a key ring has not signed yet**: legacy rows in order, the last of them at 0 or above. -/
structure LegacyOnly (mac : Mac) (ring : KeyRing) (rows : List IntegrityRow) : Prop where
  ascending : Ascending rows
  version : ∀ row ∈ rows, row.isLegacy
  legacy : ∀ row ∈ rows, LegacyOk mac ring row
  tail : 0 ≤ tailSeq rows

/-- **The log's invariant for one conversation.** -/
def Intact (mac : Mac) (ring : KeyRing) (db : Db) (cid : String) : Prop :=
  match loadIntegrityHead db cid with
  | some head => Ready mac ring cid (loadIntegrityRows db cid) head
  | none => LegacyOnly mac ring (loadIntegrityRows db cid)

variable {head : IntegrityHead}

theorem Ready.verified (h : Ready mac ring cid rows head) :
    verifyIntegrity mac (some ring) cid rows (some head) = .ok () :=
  verifyIntegrity_head.2 ⟨h.legacy, h.anchored⟩

theorem not_chained_of_legacy (h : row.isLegacy) : ¬ row.isChained := by
  unfold IntegrityRow.isLegacy at h
  unfold IntegrityRow.isChained
  rw [decide_eq_true_eq] at h ⊢
  omega

theorem LegacyOnly.verified (h : LegacyOnly mac ring rows) : verifyIntegrity mac (some ring) cid rows none = .ok () :=
  verifyIntegrity_headless.2 ⟨fun row hrow _ => h.legacy row hrow, fun row hrow => not_chained_of_legacy (h.version row hrow)⟩

theorem Intact.verified (h : Intact mac ring db cid) :
    verifyIntegrity mac (some ring) cid (loadIntegrityRows db cid) (loadIntegrityHead db cid) = .ok () := by
  unfold Intact at h
  cases hh : loadIntegrityHead db cid with
  | none | some head => rw [hh] at h; exact h.verified

def KeyRing.Retains (ring' ring : KeyRing) : Prop := ∀ id key, ring.keyFor id = some key → ring'.keyFor id = some key

variable {ring' : KeyRing}

theorem LegacyOk.retains (hr : ring'.Retains ring) (h : LegacyOk mac ring row) : LegacyOk mac ring' row := by
  intro b hb
  obtain ⟨key, hkey, htag⟩ := h b hb
  exact ⟨key, hr _ _ hkey, htag⟩

theorem Linked.retains (hr : ring'.Retains ring) (s : Tag × Int) (row : IntegrityRow) (s' : Tag × Int)
    (h : Linked mac ring s row s') : Linked mac ring' s row s' := by
  obtain ⟨hseq, hprev, htag, hnext, key, hkey, hm⟩ := h
  exact ⟨hseq, hprev, htag, hnext, key, hr _ _ hkey, hm⟩

theorem Anchored.retains (hr : ring'.Retains ring) {tail : Tag} (h : Anchored mac ring cid rows head tail) :
    Anchored mac ring' cid rows head tail := by
  obtain ⟨hstart, ⟨key, hkey, hrun⟩, htag, ckey, hckey, hcp⟩ := h
  exact ⟨hstart, ⟨key, hr _ _ hkey, run_mono (Linked.retains hr) hrun⟩, htag, ckey, hr _ _ hckey, hcp⟩

theorem Intact.retains (hr : ring'.Retains ring) (h : Intact mac ring db cid) : Intact mac ring' db cid := by
  unfold Intact at h ⊢
  cases hh : loadIntegrityHead db cid with
  | none =>
    rw [hh] at h
    exact ⟨h.ascending, h.version, fun row hrow => (h.legacy row hrow).retains hr, h.tail⟩
  | some head =>
    rw [hh] at h
    obtain ⟨tail, hanch⟩ := h.anchored
    exact ⟨h.ascending, h.version, fun row hrow hl => (h.legacy row hrow hl).retains hr, h.before, h.tail,
      tail, hanch.retains hr⟩

/-! ## Opening a head -/

variable {key : List UInt8}

theorem initialIntegrityHead_spec (hkey : ring.currentKey = some key) (h : LegacyOnly mac ring rows) :
    ∃ head, initialIntegrityHead mac (some ring) cid rows = .ok head ∧ Ready mac ring cid rows head := by
  have hany : ¬ rows.any (fun row => !row.isLegacy) := by
    rw [List.any_eq_true]
    rintro ⟨row, hrow, hne⟩
    rw [h.version row hrow] at hne
    cases hne
  have hnone : rows.filter IntegrityRow.isChained = [] :=
    List.filter_eq_nil_iff.2 fun row hrow => not_chained_of_legacy (h.version row hrow)
  unfold initialIntegrityHead
  dsimp only
  rw [hkey]
  dsimp only
  rw [if_neg hany]
  refine ⟨_, rfl, h.ascending, fun row hrow => .inl (h.version row hrow), fun row hrow _ => h.legacy row hrow,
    fun row hrow _ => ?_, rfl, _, ?_, ⟨key, hkey, ?_⟩, rfl, key, hkey, rfl⟩
  · exact Int.lt_add_one_of_le (h.ascending.seq_le hrow)
  · show 1 ≤ tailSeq rows + 1
    have := h.tail
    omega
  · rw [hnone]
    exact run_nil.2 rfl

theorem openIntegrityHead_spec (hkey : ring.currentKey = some key) (h : Intact mac ring db cid) :
    ∃ head, openIntegrityHead mac ring db cid (loadIntegrityRows db cid) = .ok head ∧
      Ready mac ring cid (loadIntegrityRows db cid) head := by
  unfold Intact at h
  unfold openIntegrityHead
  cases hh : loadIntegrityHead db cid with
  | none =>
    rw [hh] at h
    exact initialIntegrityHead_spec hkey h
  | some head =>
    rw [hh] at h
    exact ⟨head, bind_eq_ok.2 ⟨(), h.verified, rfl⟩, h⟩

/-! ## One signed insert -/

variable {ev : EventRecord} {head head' : IntegrityHead}

theorem Ready.snoc (hkey : ring.currentKey = some key) (hr : Ready mac ring cid rows head) {prev : Tag}
    (hprev : head.headTag = prev.bytes) (hseq : ev.seq = head.headSeq + 1)
    (hhead : advanceIntegrityHead mac (some ring) cid head.chainStartSeq head.genesisKeyId ev.seq
    (mac key (canonicalChainEvent (v1Canonical ev) ring.currentId prev)) = .ok head') :
    Ready mac ring cid (rows ++ [(chainedRow ev (mac key (canonicalChainEvent (v1Canonical ev) ring.currentId prev))
      ring.currentId prev).toIntegrityRow]) head' := by
  obtain ⟨tail, hstart, ⟨gkey, hgkey, hrun⟩, htag, hcp⟩ := hr.anchored
  obtain rfl : tail = prev := Tag.ext_bytes (htag.symm.trans hprev)
  unfold advanceIntegrityHead at hhead
  dsimp only at hhead
  rw [hkey] at hhead
  cases hhead
  -- the genesis bytes read legacy rows only, so the new row leaves them alone
  have hgen : ∀ row : IntegrityRow, row.isLegacy = false → legacyGenesisCanonical cid head.chainStartSeq (rows ++ [row]) =
      legacyGenesisCanonical cid head.chainStartSeq rows := by
    intro row hrow
    simp [legacyGenesisCanonical, List.filter_append, hrow]
  refine ⟨hr.ascending.snoc ?_, ?_, ?_, ?_, ?_, _, hstart, ⟨gkey, hgkey, ?_⟩, rfl, key, hkey, rfl⟩
  · rw [event_chainedRow, hr.tail]
    omega
  · intro row hrow
    rcases List.mem_append.1 hrow with hrow | hrow
    · exact hr.version row hrow
    · rw [List.mem_singleton.1 hrow]
      exact .inr rfl
  · intro row hrow hl
    rcases List.mem_append.1 hrow with hrow | hrow
    · exact hr.legacy row hrow hl
    · rw [List.mem_singleton.1 hrow] at hl
      cases hl
  · intro row hrow hl
    rcases List.mem_append.1 hrow with hrow | hrow
    · exact hr.before row hrow hl
    · rw [List.mem_singleton.1 hrow] at hl
      cases hl
  · rw [tailSeq_snoc, event_chainedRow]
  · rw [hgen _ (isLegacy_chainedRow ..), List.filter_append]
    refine run_snoc.2 ⟨_, hrun, ?_, rfl, rfl, ?_, key, hkey, ?_⟩
    · rw [event_chainedRow]
      exact hseq
    · rw [hseq]
    · rw [event_chainedRow]
      rfl

theorem advanceIntegrityHead_headSeq {start gk seq : Int} {tag : Tag}
    (h : advanceIntegrityHead mac (some ring) cid start gk seq tag = .ok head) : head.headSeq = seq := by
  unfold advanceIntegrityHead at h
  dsimp only at h
  split at h
  · cases h
  · cases h
    rfl

theorem signAndInsert_spec (hkey : ring.currentKey = some key) (hcid : ev.conversationId = cid)
    (hr : Ready mac ring cid (loadIntegrityRows db cid) head) (hseq : ev.seq = head.headSeq + 1) :
    ∃ head' db', signAndInsert mac ring cid key ev head db = .ok (head', db') ∧ head'.headSeq = ev.seq ∧
      (loadIntegrityRows db' cid).map IntegrityRow.event = (loadIntegrityRows db cid).map IntegrityRow.event ++ [ev] ∧
      Ready mac ring cid (loadIntegrityRows db' cid) head' := by
  obtain ⟨prev, hanch⟩ := hr.anchored
  have hlast : tailSeq (loadIntegrityRows db cid) < ev.seq := by
    rw [hr.tail]
    omega
  obtain ⟨head', hhead⟩ : ∃ head', advanceIntegrityHead mac (some ring) cid head.chainStartSeq head.genesisKeyId ev.seq
      (mac key (canonicalChainEvent (v1Canonical ev) ring.currentId prev)) = .ok head' := by
    unfold advanceIntegrityHead
    dsimp only
    rw [hkey]
    exact ⟨_, rfl⟩
  have hload : loadIntegrityRows (db.addEvent (chainedRow ev (mac key (canonicalChainEvent (v1Canonical ev)
      ring.currentId prev)) ring.currentId prev)) cid = _ := load_addEvent_last hcid hlast
  refine ⟨head', _, ?_, advanceIntegrityHead_headSeq hhead, congrArg (List.map IntegrityRow.event) hload |>.trans ?_, ?_⟩
  · unfold signAndInsert
    refine bind_eq_ok.2 ⟨prev, fixedTag_ok_iff.2 hanch.headTag, ?_⟩
    refine bind_eq_ok.2 ⟨_, insertEvent_last hcid hlast, ?_⟩
    exact bind_eq_ok.2 ⟨head', hhead, rfl⟩
  · rw [List.map_append, List.map_singleton, event_chainedRow]
  · rw [hload]
    exact hr.snoc hkey hanch.headTag hseq hhead

/-- The rows of `evs`, inserted one after another. -/
def Adds : List EventRecord → Db → Db → Prop
  | [], db, db' => db' = db
  | ev :: evs, db, db' => ∃ row : EventRow, row.toIntegrityRow.event = ev ∧ Adds evs (db.addEvent row) db'

theorem insertPlain_adds : ∀ {evs : List EventRecord} {db db' : Db}, insertPlain evs db = .ok db' → Adds evs db db'
  | [], _, _, h => by cases h; rfl
  | ev :: evs, db, db', h => by
    obtain ⟨db₁, h₁, h⟩ := bind_eq_ok.1 h
    obtain rfl := insertEvent_eq h₁
    exact ⟨plainRow ev, event_plainRow ev, insertPlain_adds h⟩

theorem signAndInsert_adds (h : signAndInsert mac ring cid key ev head db = .ok (head', db')) :
    ∃ row : EventRow, row.toIntegrityRow.event = ev ∧ db' = db.addEvent row := by
  obtain ⟨prev, -, h⟩ := bind_eq_ok.1 h
  obtain ⟨db₁, h₁, h⟩ := bind_eq_ok.1 h
  obtain ⟨head₁, -, h⟩ := bind_eq_ok.1 h
  cases h
  exact ⟨_, event_chainedRow .., insertEvent_eq h₁⟩

theorem insertChained_cons {evs : List EventRecord} :
    insertChained mac ring cid key (ev :: evs) head db = .ok (head', db') ↔ ev.seq = head.headSeq + 1 ∧
      ∃ head₁ db₁, signAndInsert mac ring cid key ev head db = .ok (head₁, db₁) ∧
        insertChained mac ring cid key evs head₁ db₁ = .ok (head', db') := by
  rw [insertChained]
  by_cases hseq : ev.seq = head.headSeq + 1
  · rw [if_neg (not_not.2 hseq), bind_eq_ok, Prod.exists]
    exact (and_iff_right hseq).symm
  · rw [if_pos hseq]
    constructor
    · intro h; cases h
    · intro h; exact absurd h.1 hseq

theorem insertChained_adds : ∀ {evs : List EventRecord} {head head' : IntegrityHead} {db db' : Db},
    insertChained mac ring cid key evs head db = .ok (head', db') → Adds evs db db'
  | [], _, _, _, _, h => by cases h; rfl
  | ev :: evs, head, head', db, db', h => by
    obtain ⟨-, head₁, db₁, h₁, h⟩ := insertChained_cons.1 h
    obtain ⟨row, hrow, rfl⟩ := signAndInsert_adds h₁
    exact ⟨row, hrow, insertChained_adds h⟩

theorem Adds.heads : ∀ {evs : List EventRecord} {db db' : Db}, Adds evs db db' → db'.heads = db.heads
  | [], _, _, h => by cases h; rfl
  | _ :: _, _, _, ⟨_, _, h⟩ => h.heads

theorem Adds.load_of_ne {c : String} : ∀ {evs : List EventRecord} {db db' : Db}, Adds evs db db' →
    (∀ ev ∈ evs, ev.conversationId ≠ c) → loadIntegrityRows db' c = loadIntegrityRows db c
  | [], _, _, h, _ => by cases h; rfl
  | ev :: evs, db, db', ⟨row, hrow, h⟩, hne => by
    have hc : row.conversationId ≠ c := by
      have := hne ev (by simp)
      rwa [← hrow] at this
    rw [h.load_of_ne (fun e he => hne e (by simp [he])), load_addEvent_of_ne hc]

theorem Adds.load : ∀ {evs : List EventRecord} {db db' : Db} {n : Int}, Adds evs db db' →
    (∀ ev ∈ evs, ev.conversationId = cid) → Numbered n evs → tailSeq (loadIntegrityRows db cid) < n →
    (loadIntegrityRows db' cid).map IntegrityRow.event = (loadIntegrityRows db cid).map IntegrityRow.event ++ evs
  | [], db, db', n, h, _, _, _ => by cases h; simp
  | ev :: evs, db, db', n, ⟨row, hrow, h⟩, hcid, hnum, hn => by
    have hc : row.conversationId = cid := by
      have := hcid ev (by simp)
      rwa [← hrow] at this
    have hseq : row.seq = n := by
      have := hnum.1
      rwa [← hrow] at this
    have hload := load_addEvent_last hc (hseq ▸ hn)
    have htail : tailSeq (loadIntegrityRows (db.addEvent row) cid) < n + 1 := by
      rw [hload, tailSeq_snoc]
      show row.seq < n + 1
      omega
    rw [h.load (fun e he => hcid e (by simp [he])) hnum.2 htail, hload, List.map_append, List.map_singleton, hrow,
      List.append_assoc, List.singleton_append]

theorem insertChained_spec (hkey : ring.currentKey = some key) :
    ∀ {evs : List EventRecord} {head : IntegrityHead} {db : Db}, (∀ ev ∈ evs, ev.conversationId = cid) →
      Ready mac ring cid (loadIntegrityRows db cid) head → Numbered (head.headSeq + 1) evs →
      ∃ head' db', insertChained mac ring cid key evs head db = .ok (head', db') ∧
        Ready mac ring cid (loadIntegrityRows db' cid) head'
  | [], head, db, _, hr, _ => ⟨head, db, rfl, hr⟩
  | ev :: evs, head, db, hcid, hr, hnum => by
    obtain ⟨head₁, db₁, h₁, hseq₁, -, hr₁⟩ := signAndInsert_spec hkey (hcid ev (by simp)) hr hnum.1
    have hnum₁ : Numbered (head₁.headSeq + 1) evs := by
      rw [hseq₁, hnum.1]
      exact hnum.2
    obtain ⟨head', db', h', hr'⟩ := insertChained_spec hkey (fun e he => hcid e (by simp [he])) hr₁ hnum₁
    exact ⟨head', db', insertChained_cons.2 ⟨hnum.1, head₁, db₁, h₁, h'⟩, hr'⟩

theorem signAndInsert_headSeq (h : signAndInsert mac ring cid key ev head db = .ok (head', db')) :
    head'.headSeq = ev.seq := by
  obtain ⟨prev, -, h⟩ := bind_eq_ok.1 h
  obtain ⟨db₁, -, h⟩ := bind_eq_ok.1 h
  obtain ⟨head₁, h₁, h⟩ := bind_eq_ok.1 h
  cases h
  exact advanceIntegrityHead_headSeq h₁

theorem numbered_of_insertChained : ∀ {evs : List EventRecord} {head head' : IntegrityHead}
    {db db' : Db}, insertChained mac ring cid key evs head db = .ok (head', db') → Numbered (head.headSeq + 1) evs
  | [], _, _, _, _, _ => trivial
  | ev :: evs, head, head', db, db', h => by
    obtain ⟨hseq, head₁, db₁, h₁, h⟩ := insertChained_cons.1 h
    have := numbered_of_insertChained h
    rw [signAndInsert_headSeq h₁, hseq] at this
    exact ⟨hseq, this⟩

/-! ## Numbering a batch -/

theorem pairEvents_spec {results : List UInt32} {now : Int} : ∀ {evs : List PendingEvent} {n : Int}
    {batch : List EventRecord}, pairEvents codec cid results now evs n = .ok batch →
    (∀ ev ∈ batch, ev.conversationId = cid) ∧ Numbered n batch
  | [], _, _, h => by cases h; simp [Numbered]
  | ev :: evs, n, batch, h => by
    rw [pairEvents] at h
    split at h
    · split at h
      · cases h
      · split at h
        · obtain ⟨rest, hrest, h⟩ := bind_eq_ok.1 h
          cases h
          obtain ⟨hcid, hnum⟩ := pairEvents_spec hrest
          exact ⟨List.forall_mem_cons.2 ⟨rfl, hcid⟩, rfl, hnum⟩
        · obtain ⟨synthetic, hsyn, h⟩ := bind_eq_ok.1 h
          obtain ⟨rest, hrest, h⟩ := bind_eq_ok.1 h
          cases h
          obtain ⟨hcid, hnum⟩ := pairEvents_spec hrest
          unfold syntheticResult at hsyn
          dsimp only at hsyn
          split at hsyn
          · cases hsyn
          · cases hsyn
            refine ⟨List.forall_mem_cons.2 ⟨rfl, List.forall_mem_cons.2 ⟨rfl, hcid⟩⟩, rfl, rfl, ?_⟩
            rw [show n + 1 + 1 = n + 2 by omega]
            exact hnum
    · obtain ⟨rest, hrest, h⟩ := bind_eq_ok.1 h
      cases h
      obtain ⟨hcid, hnum⟩ := pairEvents_spec hrest
      exact ⟨List.forall_mem_cons.2 ⟨rfl, hcid⟩, rfl, hnum⟩

variable {batch : List EventRecord}

theorem enforceToolPairing_spec {base now : Int} {events : List PendingEvent}
    (h : enforceToolPairing codec cid base events now = .ok batch) :
    (∀ ev ∈ batch, ev.conversationId = cid) ∧ Numbered (base + 1) batch := by
  obtain ⟨results, -, h⟩ := bind_eq_ok.1 h
  exact pairEvents_spec h

theorem numbered_shift {d : Int} : ∀ {evs : List EventRecord} {n : Int}, Numbered n evs →
    Numbered (n + d) (evs.map (fun ev => { ev with seq := ev.seq + d }))
  | [], _, _ => trivial
  | ev :: evs, n, h => by
    refine ⟨congrArg (· + d) h.1, ?_⟩
    rw [show n + d + 1 = n + 1 + d by omega]
    exact numbered_shift h.2

theorem rebase_numbered {base tail : Int} (h : Numbered (base + 1) batch) (hle : base ≤ tail) :
    Numbered (tail + 1) (rebase batch (tail - base)) := by
  unfold rebase
  by_cases hd : 0 < tail - base
  · rw [if_pos hd]
    have := numbered_shift (d := tail - base) h
    rwa [show base + 1 + (tail - base) = tail + 1 by omega] at this
  · rw [if_neg hd]
    rwa [show tail + 1 = base + 1 by omega]

theorem rebase_conversationId {d : Int} (h : ∀ ev ∈ batch, ev.conversationId = cid) :
    ∀ ev ∈ rebase batch d, ev.conversationId = cid := by
  unfold rebase
  split
  · intro ev hev
    obtain ⟨e, he, rfl⟩ := List.mem_map.1 hev
    exact h e he
  · exact h

/-! ## Behind the inserts -/

theorem foldl_releaseOne (keyOf : UInt32 → String) : ∀ (ordinals : List UInt32) (db : Db),
    (ordinals.foldl (fun db o => releaseOne (keyOf o) db) db).events = db.events ∧
      (ordinals.foldl (fun db o => releaseOne (keyOf o) db) db).heads = db.heads
  | [], _ => ⟨rfl, rfl⟩
  | o :: os, db => foldl_releaseOne keyOf os (releaseOne (keyOf o) db)

theorem releaseStagedTransportEffects_keeps (committed : List EventRecord) (db : Db) :
    (releaseStagedTransportEffects codec cid committed db).events = db.events ∧
      (releaseStagedTransportEffects codec cid committed db).heads = db.heads := by
  unfold releaseStagedTransportEffects
  split
  · exact ⟨rfl, rfl⟩
  · exact foldl_releaseOne _ _ db

theorem finishCommit_spec {projection : Projection} {evs out : List EventRecord}
    (h : finishCommit codec cid projection evs db = .ok (out, db')) :
    out = evs ∧ db'.events = db.events ∧ db'.heads = db.heads := by
  obtain ⟨db₁, h₁, h⟩ := bind_eq_ok.1 h
  obtain ⟨he, hh⟩ := projection.keeps _ _ _ h₁
  cases h
  refine ⟨rfl, ?_⟩
  split
  · obtain ⟨he', hh'⟩ := @releaseStagedTransportEffects_keeps codec cid evs db₁
    exact ⟨he'.trans he, hh'.trans hh⟩
  · exact ⟨he, hh⟩

theorem intact_of_ready (hh : loadIntegrityHead db cid = some head)
    (hr : Ready mac ring cid (loadIntegrityRows db cid) head) : Intact mac ring db cid := by
  unfold Intact
  rw [hh]
  exact hr

theorem loadIntegrityHead_write (db : Db) (cid : String) (head : IntegrityHead) :
    loadIntegrityHead (writeIntegrityHead db cid head) cid = some head := Table.get_upsert_self _ _ _

theorem loadIntegrityHead_write_of_ne {c : String} (hne : c ≠ cid) (db : Db) (head : IntegrityHead) :
    loadIntegrityHead (writeIntegrityHead db cid head) c = loadIntegrityHead db c := Table.get_upsert_of_ne hne _ _

end Execlaw
