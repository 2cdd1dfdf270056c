import Execlaw.EventHistory
/-!
# Snapshots — hydrating a conversation without a key (`core/src/events.rs`)

A snapshot holds a conversation's events up to a cut.  `hydrate` returns them with the events read behind the cut, and
falls back to the whole log whenever the blob does not decode to a snapshot of the conversation at that cut.  A commit
writes behind the last sequence; an unkeyed `append` writes wherever the sequence is free, also below the cut, where the
fast path does not look.  MessagePack is the parameter `SnapshotCodec`.
-/
namespace Execlaw

open Wire EventHmac Steps

variable {mac : Mac} {codec : Codec} {c : String} {db db' : Db}

/-! ## Snapshots -/

structure Snapshot where
  conversationId : String
  upToSeq : Int
  events : List EventRecord
  builtAt : Int
deriving DecidableEq

/-- `Snapshot::encode` and `Snapshot::decode`: both directions may fail. -/
structure SnapshotCodec where
  encode : Snapshot → Except String (List UInt8)
  decode : List UInt8 → Except String Snapshot

def SnapshotCodec.Inverts (snapshots : SnapshotCodec) : Prop :=
  ∀ snap blob, snapshots.encode snap = .ok blob → snapshots.decode blob = .ok snap

def buildSnapshot (mac : Mac) (ring : Option KeyRing) (db : Db) (cid : String) (upToSeq now : Int) :
    Except DbError Snapshot := do
  let events ← replaySince mac ring db cid 0
  return { conversationId := cid, upToSeq := upToSeq, events := events.filter (fun ev => decide (ev.seq ≤ upToSeq)),
           builtAt := now }

def cachedPart (snapshots : SnapshotCodec) (cid : String) (snapshotBlob : Option (List UInt8))
    (snapshotSeq : Option Int) : List EventRecord × Int :=
  match snapshotBlob, snapshotSeq with
  | some blob, some seq =>
    match snapshots.decode blob with
    | .ok snap => if snap.conversationId = cid ∧ snap.upToSeq = seq then (snap.events, seq) else ([], 0)
    | .error _ => ([], 0)
  | _, _ => ([], 0)

def hydrate (snapshots : SnapshotCodec) (mac : Mac) (ring : Option KeyRing) (db : Db) (cid : String)
    (snapshotBlob : Option (List UInt8)) (snapshotSeq : Option Int) : Except DbError (List EventRecord) :=
  match ring with
  | some ring => replaySince mac (some ring) db cid 0
  | none => do
    let tail ← replaySince mac none db cid (cachedPart snapshots cid snapshotBlob snapshotSeq).2
    return (cachedPart snapshots cid snapshotBlob snapshotSeq).1 ++ tail

/-! ## Reading without a key -/

theorem replaySince_plain (db : Db) (c : String) (after : Int) :
    replaySince mac none db c after = .ok ((eventsOf db c).filter (fun ev => decide (after < ev.seq))) := by
  unfold replaySince eventsOf
  rw [List.filter_map]
  rfl

theorem eventsOf_filter (p : Int → Bool) (db : Db) (c : String) : (eventsOf db c).filter (fun ev => p ev.seq) =
    (Table.orderBy EventRow.seq (db.events.filter (fun r => decide (r.conversationId = c) && p r.seq))).map
      (fun r => r.toIntegrityRow.event) := by
  have hrows : (Table.orderBy EventRow.seq (db.events.filter (fun r => decide (r.conversationId = c)))).filter
      (fun r => p r.seq) =
      Table.orderBy EventRow.seq (db.events.filter (fun r => decide (r.conversationId = c) && p r.seq)) := by
    rw [← Table.orderBy_filter, List.filter_filter]
    simp only [Bool.and_comm]
  unfold eventsOf loadIntegrityRows
  rw [List.map_map, List.filter_map, ← hrows]
  rfl

theorem eventsOf_pairwise (db : Db) (c : String) : (eventsOf db c).Pairwise (fun a b => a.seq ≤ b.seq) :=
  List.pairwise_map.2 (load_pairwise_le db c)

theorem filter_cut {lo u : Int} (hlo : lo ≤ u) : ∀ {evs : List EventRecord}, evs.Pairwise (fun a b => a.seq ≤ b.seq) →
    evs.filter (fun ev => decide (lo < ev.seq)) =
      evs.filter (fun ev => decide (lo < ev.seq ∧ ev.seq ≤ u)) ++ evs.filter (fun ev => decide (u < ev.seq))
  | [], _ => rfl
  | ev :: evs, h => by
    obtain ⟨hev, h⟩ := List.pairwise_cons.1 h
    have ih := filter_cut hlo h
    by_cases hu : u < ev.seq
    · have hlow : (ev :: evs).filter (fun ev => decide (lo < ev.seq ∧ ev.seq ≤ u)) = [] := by
        refine List.filter_eq_nil_iff.2 fun e he => ?_
        rcases List.mem_cons.1 he with rfl | he
        · simp; omega
        · have := hev e he
          simp; omega
      rw [hlow, List.nil_append]
      refine List.filter_congr fun e he => ?_
      rcases List.mem_cons.1 he with rfl | he
      · simp; omega
      · have := hev e he
        simp; omega
    · by_cases hl : lo < ev.seq
      · have hle : ev.seq ≤ u := by omega
        simp only [List.filter_cons, hl, hle, hu, and_self, decide_true, decide_false, if_true, ih, List.cons_append]
        rfl
      · simp only [List.filter_cons, hl, hu, false_and, decide_false, ih]
        rfl

/-! ## Later writes -/

inductive PlainWrite
  | append (ev : EventRecord)
  | commit (cid : String) (baseSeq : Int) (events : List PendingEvent) (projection : Projection) (now : Int)

def PlainWrite.exec (mac : Mac) (codec : Codec) (db : Db) : PlainWrite → Db
  | .append ev => (Execlaw.append mac none ev db).2
  | .commit cid baseSeq events projection now =>
    (commitTurnWithProjection mac codec none cid baseSeq events projection now db).2

def PlainStep (mac : Mac) (codec : Codec) (db : Db) (write : PlainWrite) (db' : Db) : Prop := db' = write.exec mac codec db

/-- The rows `new` stand in front of the old ones, none of them there before. -/
def Grown (new : List EventRow) (db db' : Db) : Prop := db'.events = new ++ db.events ∧ ∀ r ∈ new, r ∉ db.events

theorem Grown.refl (h : db'.events = db.events) : Grown [] db db' := ⟨h, by simp⟩

theorem Grown.trans {db'' : Db} {new new' : List EventRow} (h : Grown new db db') (h' : Grown new' db' db'') :
    Grown (new' ++ new) db db'' := by
  refine ⟨by rw [h'.1, h.1, List.append_assoc], fun r hr hold => ?_⟩
  rcases List.mem_append.1 hr with hr | hr
  · exact h'.2 r hr (by rw [h.1]; exact List.mem_append_right _ hold)
  · exact h.2 r hr hold

theorem insertEvent_grown {row : EventRow} (h : insertEvent row db = .ok db') : Grown [row] db db' := by
  refine ⟨by rw [insertEvent_eq h]; rfl, fun r hr hold => ?_⟩
  rw [List.mem_singleton.1 hr] at hold
  unfold insertEvent at h
  rw [if_pos (List.any_eq_true.2 ⟨row, hold, by simp⟩)] at h
  cases h

theorem insertPlain_grown : ∀ {evs : List EventRecord} {db db' : Db}, insertPlain evs db = .ok db' →
    ∃ new, Grown new db db' ∧ ∀ r ∈ new, ∃ ev ∈ evs, r = plainRow ev
  | [], db, db', h => by
    cases h
    exact ⟨[], Grown.refl rfl, by simp⟩
  | ev :: evs, db, db', h => by
    obtain ⟨db₁, h₁, h⟩ := bind_eq_ok.1 h
    obtain ⟨new, hgrown, hnew⟩ := insertPlain_grown h
    refine ⟨new ++ [plainRow ev], (insertEvent_grown h₁).trans hgrown, fun r hr => ?_⟩
    rcases List.mem_append.1 hr with hr | hr
    · obtain ⟨e, he, rfl⟩ := hnew r hr
      exact ⟨e, List.mem_cons_of_mem _ he, rfl⟩
    · exact ⟨ev, by simp, List.mem_singleton.1 hr⟩

theorem rebase_behind {batch : List EventRecord} {base tail : Int} (h : Numbered (base + 1) batch) :
    ∀ ev ∈ rebase batch (tail - base), tail < ev.seq := by
  intro ev hev
  by_cases hbase : base ≤ tail
  · have := (mem_numbered (rebase_numbered h hbase) ev hev).1
    omega
  · unfold rebase at hev
    rw [if_neg (by omega)] at hev
    have := (mem_numbered h ev hev).1
    omega

theorem append_plain_grown {ev : EventRecord} {answer : Except DbError Unit}
    (hrun : append mac none ev db = (answer, db')) : ∃ new, Grown new db db' ∧ ∀ r ∈ new, r = plainRow ev := by
  cases answer with
  | error e =>
    have hsame : db' = db := (congrArg Prod.snd hrun).symm.trans (transaction_error (congrArg Prod.fst hrun))
    exact ⟨[], Grown.refl (congrArg Db.events hsame), by simp⟩
  | ok _ =>
    unfold append at hrun
    rw [transaction_ok] at hrun
    dsimp only at hrun
    by_cases hhead : (loadIntegrityHead db ev.conversationId).isSome = true
    · rw [if_pos hhead] at hrun
      cases hrun
    · rw [if_neg hhead] at hrun
      obtain ⟨db₁, h₁, hrun⟩ := bind_eq_ok.1 hrun
      cases hrun
      exact ⟨[plainRow ev], insertEvent_grown h₁, fun r hr => List.mem_singleton.1 hr⟩

theorem commit_plain_grown {cid : String} {base now : Int} {events : List PendingEvent} {projection : Projection}
    {answer : Except DbError (List EventRecord)}
    (hrun : commitTurnWithProjection mac codec none cid base events projection now db = (answer, db')) :
    ∃ new, Grown new db db' ∧ ∀ r ∈ new, tailSeq (loadIntegrityRows db r.conversationId) < r.seq := by
  cases answer with
  | error e =>
    have hsame : db' = db := by
      unfold commitTurnWithProjection at hrun
      cases hbatch : enforceToolPairing codec cid base events now with
      | error e' => rw [hbatch] at hrun; cases hrun; rfl
      | ok batch =>
        rw [hbatch] at hrun
        exact (congrArg Prod.snd hrun).symm.trans (transaction_error (congrArg Prod.fst hrun))
    exact ⟨[], Grown.refl (congrArg Db.events hsame), by simp⟩
  | ok out =>
    obtain ⟨batch, hbatch, hrun⟩ := commitTurnWithProjection_ok_iff.1 hrun
    unfold commitMaterialized at hrun
    dsimp only at hrun
    by_cases hhead : (loadIntegrityHead db cid).isSome = true
    · rw [if_pos hhead] at hrun
      cases hrun
    · rw [if_neg hhead] at hrun
      obtain ⟨db₁, h₁, hfinish⟩ := bind_eq_ok.1 hrun
      obtain ⟨hcid, hnum⟩ := enforceToolPairing_spec hbatch
      obtain ⟨new, hgrown, hnew⟩ := insertPlain_grown h₁
      refine ⟨new, ⟨(finishCommit_spec hfinish).2.1.trans hgrown.1, hgrown.2⟩, fun r hr => ?_⟩
      obtain ⟨ev, hev, rfl⟩ := hnew r hr
      show tailSeq (loadIntegrityRows db ev.conversationId) < ev.seq
      rw [rebase_conversationId hcid ev hev]
      exact rebase_behind hnum ev hev

def PlainWrite.Adds (db : Db) (r : EventRow) : PlainWrite → Prop
  | .append ev => r = plainRow ev
  | .commit .. => tailSeq (loadIntegrityRows db r.conversationId) < r.seq

theorem PlainWrite.exec_grown (write : PlainWrite) (db : Db) :
    ∃ new, Grown new db (write.exec mac codec db) ∧ ∀ r ∈ new, write.Adds db r := by
  cases write with
  | append ev =>
    have hrun : Execlaw.append mac none ev db = (_, (PlainWrite.append ev).exec mac codec db) := rfl
    exact append_plain_grown hrun
  | commit cid base events projection now =>
    have hrun : commitTurnWithProjection mac codec none cid base events projection now db =
        (_, (PlainWrite.commit cid base events projection now).exec mac codec db) := rfl
    exact commit_plain_grown hrun

variable {writes : List PlainWrite}

theorem run_grown (hrun : Run (PlainStep mac codec) db writes db') : ∃ new, Grown new db db' := by
  induction writes generalizing db with
  | nil =>
    cases hrun
    exact ⟨[], Grown.refl rfl⟩
  | cons write writes ih =>
    obtain ⟨db₁, rfl, hrun⟩ := hrun
    obtain ⟨new, hnew, -⟩ := write.exec_grown db
    obtain ⟨new', hnew'⟩ := ih hrun
    exact ⟨new' ++ new, hnew.trans hnew'⟩

/-! ## The cut -/

/-- The row of the conversation that the fast path gets wrong: stored below a cut that is itself below zero, or written
under the cut since the snapshot. -/
def Missed (c : String) (u : Int) (db db' : Db) : Prop :=
  ∃ r ∈ db'.events, r.conversationId = c ∧ (u < r.seq ∧ r.seq ≤ 0 ∨ 0 < r.seq ∧ r.seq ≤ u ∧ r ∉ db.events)

/-- The rows of the conversation between `0` and the cut. -/
def underCut (c : String) (u : Int) (r : EventRow) : Bool := decide (r.conversationId = c) && decide (0 < r.seq ∧ r.seq ≤ u)

variable {u : Int}

theorem underCut_eq_iff {new : List EventRow} (h : Grown new db db') (hu : 0 ≤ u) :
    (eventsOf db c).filter (fun ev => decide (0 < ev.seq ∧ ev.seq ≤ u)) =
      (eventsOf db' c).filter (fun ev => decide (0 < ev.seq ∧ ev.seq ≤ u)) ↔ ¬ Missed c u db db' := by
  have hrows : db'.events.filter (underCut c u) = new.filter (underCut c u) ++ db.events.filter (underCut c u) := by
    rw [h.1, List.filter_append]
  have hnew : new.filter (underCut c u) = [] ↔ ¬ Missed c u db db' := by
    rw [List.filter_eq_nil_iff]
    constructor
    · rintro hnone ⟨r, hr, hc, hlow | ⟨hpos, hle, hold⟩⟩
      · omega
      · rw [h.1, List.mem_append] at hr
        exact hnone r (hr.resolve_right hold) (by simp [underCut, hc, hpos, hle])
    · intro hmissed r hr hunder
      simp only [underCut, Bool.and_eq_true, decide_eq_true_eq] at hunder
      exact hmissed ⟨r, by rw [h.1]; exact List.mem_append_left _ hr, hunder.1, .inr ⟨hunder.2.1, hunder.2.2, h.2 r hr⟩⟩
  rw [eventsOf_filter (fun s => decide (0 < s ∧ s ≤ u)), eventsOf_filter (fun s => decide (0 < s ∧ s ≤ u)), ← hnew]
  show (Table.orderBy EventRow.seq (db.events.filter (underCut c u))).map _ =
    (Table.orderBy EventRow.seq (db'.events.filter (underCut c u))).map _ ↔ _
  rw [hrows]
  constructor
  · intro heq
    have hlen := congrArg List.length heq
    simp only [List.length_map, Table.orderBy, List.length_insertionSort, List.length_append] at hlen
    exact List.length_eq_zero_iff.1 (by omega)
  · intro hnil
    rw [hnil, List.nil_append]

theorem filter_between_iff (hu : u ≤ 0) (evs : List EventRecord) :
    evs.filter (fun ev => decide (u < ev.seq)) = evs.filter (fun ev => decide (0 < ev.seq)) ↔
      ∀ ev ∈ evs, ¬ (u < ev.seq ∧ ev.seq ≤ 0) := by
  constructor
  · intro heq ev hev ⟨hlo, hhi⟩
    have hmem : ev ∈ evs.filter (fun ev => decide (u < ev.seq)) := List.mem_filter.2 ⟨hev, by simpa using hlo⟩
    rw [heq] at hmem
    have := (List.mem_filter.1 hmem).2
    simp only [decide_eq_true_eq] at this
    omega
  · intro hnone
    refine List.filter_congr fun ev hev => ?_
    have := hnone ev hev
    simp only [decide_eq_decide]
    omega

theorem mem_eventsOf {ev : EventRecord} : ev ∈ eventsOf db c ↔
    ∃ r ∈ db.events, r.conversationId = c ∧ r.toIntegrityRow.event = ev := by
  unfold eventsOf
  rw [List.mem_map]
  constructor
  · rintro ⟨row, hrow, rfl⟩
    obtain ⟨r, hr, hc, rfl⟩ := mem_loadIntegrityRows.1 hrow
    exact ⟨r, hr, hc, rfl⟩
  · rintro ⟨r, hr, hc, rfl⟩
    exact ⟨_, mem_loadIntegrityRows.2 ⟨r, hr, hc, rfl⟩, rfl⟩

theorem buildSnapshot_plain (db : Db) (c : String) (u now : Int) : buildSnapshot mac none db c u now =
    .ok ⟨c, u, (eventsOf db c).filter (fun ev => decide (0 < ev.seq ∧ ev.seq ≤ u)), now⟩ := by
  unfold buildSnapshot
  rw [replaySince_plain]
  show Except.ok _ = Except.ok _
  rw [List.filter_filter]
  simp only [Bool.decide_and, Bool.and_comm]

theorem cut_eq_iff {new : List EventRow} (h : Grown new db db') (c : String) (u : Int) :
    (eventsOf db c).filter (fun ev => decide (0 < ev.seq ∧ ev.seq ≤ u)) ++
        (eventsOf db' c).filter (fun ev => decide (u < ev.seq)) =
      (eventsOf db' c).filter (fun ev => decide (0 < ev.seq)) ↔ ¬ Missed c u db db' := by
  by_cases hu : 0 ≤ u
  · rw [filter_cut hu (eventsOf_pairwise db' c), List.append_left_inj, underCut_eq_iff h hu]
  · have hnone : (eventsOf db c).filter (fun ev => decide (0 < ev.seq ∧ ev.seq ≤ u)) = [] := by
      refine List.filter_eq_nil_iff.2 fun ev _ => ?_
      simp only [decide_eq_true_eq]
      omega
    rw [hnone, List.nil_append, filter_between_iff (by omega)]
    constructor
    · rintro hno ⟨r, hr, hc, hlow | hhigh⟩
      · exact hno _ (mem_eventsOf.2 ⟨r, hr, hc, rfl⟩) hlow
      · omega
    · intro hmissed ev hev hlow
      obtain ⟨r, hr, hc, rfl⟩ := mem_eventsOf.1 hev
      exact hmissed ⟨r, hr, hc, .inl hlow⟩

/-! ## Hydrating -/

def UsableBlob (snapshots : SnapshotCodec) (cid : String) (snapshotBlob : Option (List UInt8))
    (snapshotSeq : Option Int) : Prop :=
  ∃ blob seq snap, snapshotBlob = some blob ∧ snapshotSeq = some seq ∧ snapshots.decode blob = .ok snap ∧
    snap.conversationId = cid ∧ snap.upToSeq = seq

variable {snapshots : SnapshotCodec} {snapshotBlob : Option (List UInt8)} {snapshotSeq : Option Int}

theorem cachedPart_unusable (h : ¬ UsableBlob snapshots c snapshotBlob snapshotSeq) :
    cachedPart snapshots c snapshotBlob snapshotSeq = ([], 0) := by
  unfold cachedPart
  cases snapshotBlob with
  | none => rfl
  | some blob =>
    cases snapshotSeq with
    | none => rfl
    | some seq =>
      cases hdecode : snapshots.decode blob with
      | error e => simp only [hdecode]
      | ok snap =>
        simp only [hdecode]
        exact if_neg fun hsnap => h ⟨blob, seq, snap, rfl, rfl, hdecode, hsnap.1, hsnap.2⟩

theorem hydrate_fallback (h : ¬ UsableBlob snapshots c snapshotBlob snapshotSeq) (db : Db) :
    hydrate snapshots mac none db c snapshotBlob snapshotSeq = replaySince mac none db c 0 := by
  unfold hydrate
  rw [cachedPart_unusable h, replaySince_plain]
  rfl

theorem hydrate_snapshot (hinv : snapshots.Inverts) {snap : Snapshot} {blob : List UInt8}
    (hblob : snapshots.encode snap = .ok blob) (db' : Db) :
    hydrate snapshots mac none db' snap.conversationId (some blob) (some snap.upToSeq) =
      .ok (snap.events ++ (eventsOf db' snap.conversationId).filter (fun ev => decide (snap.upToSeq < ev.seq))) := by
  have hcached : cachedPart snapshots snap.conversationId (some blob) (some snap.upToSeq) =
      (snap.events, snap.upToSeq) := by
    simp [cachedPart, hinv snap blob hblob]
  unfold hydrate
  rw [hcached, replaySince_plain]
  rfl

theorem hydrate_eq_iff (hinv : snapshots.Inverts) {u now : Int} {snap : Snapshot} {blob : List UInt8}
    (hbuild : buildSnapshot mac none db c u now = .ok snap) (hblob : snapshots.encode snap = .ok blob)
    (hrun : Run (PlainStep mac codec) db writes db') :
    hydrate snapshots mac none db' c (some blob) (some u) = replaySince mac none db' c 0 ↔ ¬ Missed c u db db' := by
  rw [buildSnapshot_plain] at hbuild
  cases hbuild
  obtain ⟨new, hgrown⟩ := run_grown hrun
  have hread : hydrate snapshots mac none db' c (some blob) (some u) = _ := hydrate_snapshot hinv hblob db'
  rw [hread, replaySince_plain, Except.ok.injEq]
  exact cut_eq_iff hgrown c u

def PlainWrite.Ahead (c : String) (u : Int) : PlainWrite → Prop
  | .append ev => ev.conversationId = c → ev.seq ≤ 0 ∨ u < ev.seq
  | .commit .. => True

theorem run_ahead (hrun : Run (PlainStep mac codec) db writes db') (hahead : ∀ w ∈ writes, w.Ahead c u)
    (hrow : ∃ r ∈ db.events, r.conversationId = c ∧ u ≤ r.seq) :
    ∃ new, Grown new db db' ∧ ∀ r ∈ new, r.conversationId = c → r.seq ≤ 0 ∨ u < r.seq := by
  induction writes generalizing db with
  | nil =>
    cases hrun
    exact ⟨[], Grown.refl rfl, by simp⟩
  | cons write writes ih =>
    obtain ⟨db₁, rfl, hrun⟩ := hrun
    obtain ⟨hwrite, hahead⟩ := List.forall_mem_cons.1 hahead
    obtain ⟨new, hnew, hadds⟩ : ∃ new, Grown new db (write.exec mac codec db) ∧ ∀ r ∈ new, write.Adds db r :=
      write.exec_grown db
    obtain ⟨r₀, hr₀, hc₀, hu₀⟩ := hrow
    have hstep : ∀ r ∈ new, r.conversationId = c → r.seq ≤ 0 ∨ u < r.seq := by
      intro r hr hc
      have hadd := hadds r hr
      cases write with
      | append ev =>
        obtain rfl : r = plainRow ev := hadd
        exact hwrite hc
      | commit cid base events projection now =>
        have hlast : tailSeq (loadIntegrityRows db r.conversationId) < r.seq := hadd
        rw [hc] at hlast
        have hle : r₀.seq ≤ tailSeq (loadIntegrityRows db c) :=
          seq_le_tailSeq (mem_loadIntegrityRows.2 ⟨r₀, hr₀, hc₀, rfl⟩)
        omega
    obtain ⟨new', hnew', hrest⟩ := ih hrun hahead ⟨r₀, by rw [hnew.1]; exact List.mem_append_right _ hr₀, hc₀, hu₀⟩
    exact ⟨new' ++ new, hnew.trans hnew', fun r hr => (List.mem_append.1 hr).elim (hrest r) (hstep r)⟩

theorem exists_row_of_lastSeq (hu : 0 < u) (h : u ≤ lastSeq db c) :
    ∃ r ∈ db.events, r.conversationId = c ∧ u ≤ r.seq := by
  unfold lastSeq at h
  cases hmax : ((db.events.filter (fun r => decide (r.conversationId = c))).map EventRow.seq).max? with
  | none =>
    rw [hmax] at h
    simp only [Option.getD_none] at h
    omega
  | some m =>
    rw [hmax] at h
    obtain ⟨r, hr, rfl⟩ := List.mem_map.1 (List.max?_mem hmax)
    rw [List.mem_filter, decide_eq_true_eq] at hr
    exact ⟨r, hr.1, hr.2, h⟩

theorem not_missed_of_ahead (hrun : Run (PlainStep mac codec) db writes db') (hu : 0 ≤ u) (hlast : u ≤ lastSeq db c)
    (hahead : ∀ w ∈ writes, w.Ahead c u) : ¬ Missed c u db db' := by
  rintro ⟨r, hr, hc, hlow | ⟨hpos, hle, hold⟩⟩
  · omega
  · obtain ⟨new, hgrown, hnew⟩ := run_ahead hrun hahead (exists_row_of_lastSeq (by omega) hlast)
    rw [hgrown.1, List.mem_append] at hr
    have := hnew r (hr.resolve_right hold) hc
    omega

/-- **Snapshot hydration equals the full replay** exactly when no row was missed: behind any run of unkeyed writes, the
snapshot's own blob reads what a replay reads if and only if no row of the conversation lies between a negative cut and
zero, or was written under the cut since.  With a cut from zero to the last sequence that is so in every run whose
appends to the conversation are ahead of it.  Any other blob or sequence gives the full replay. -/
theorem hydrate_iff (mac : Mac) (codec : Codec) {snapshots : SnapshotCodec} (hinv : snapshots.Inverts) (c : String) :
    (∀ (db db' : Db) (writes : List PlainWrite) (u now : Int) (snap : Snapshot) (blob : List UInt8),
      buildSnapshot mac none db c u now = .ok snap → snapshots.encode snap = .ok blob →
      Run (PlainStep mac codec) db writes db' →
      (hydrate snapshots mac none db' c (some blob) (some u) = replaySince mac none db' c 0 ↔ ¬ Missed c u db db') ∧
      (0 ≤ u → u ≤ lastSeq db c → (∀ w ∈ writes, w.Ahead c u) →
        hydrate snapshots mac none db' c (some blob) (some u) = replaySince mac none db' c 0)) ∧
    ∀ (db : Db) (snapshotBlob : Option (List UInt8)) (snapshotSeq : Option Int),
      ¬ UsableBlob snapshots c snapshotBlob snapshotSeq →
      hydrate snapshots mac none db c snapshotBlob snapshotSeq = replaySince mac none db c 0 := by
  refine ⟨fun db db' writes u now snap blob hbuild hblob hrun => ?_, fun db _ _ h => hydrate_fallback h db⟩
  have hiff := hydrate_eq_iff hinv hbuild hblob hrun
  exact ⟨hiff, fun hu hlast hahead => hiff.2 (not_missed_of_ahead hrun hu hlast hahead)⟩

/-! ## A log with a gap -/

def gapEvent (seq : Int) : EventRecord := ⟨"c", seq, .userMsg, [7], 0, none⟩

def gapLog : Db where
  events := [plainRow (gapEvent 3), plainRow (gapEvent 1)]

def gapSnapshot : Snapshot := ⟨"c", 3, [gapEvent 1, gapEvent 3], 5⟩

def gapCodec : SnapshotCodec where
  encode snap := if snap = gapSnapshot then .ok [0x84] else .error "unknown snapshot"
  decode blob := if blob = [0x84] then .ok gapSnapshot else .error "invalid type"

theorem gapCodec_inverts : gapCodec.Inverts := by
  intro snap blob h
  simp only [gapCodec] at h ⊢
  by_cases hs : snap = gapSnapshot
  · rw [if_pos hs] at h
    cases h
    rw [if_pos rfl, hs]
  · rw [if_neg hs] at h
    cases h

theorem encode_gapSnapshot : gapCodec.encode gapSnapshot = .ok [0x84] := by decide +kernel

theorem build_gapLog : buildSnapshot flatMac none gapLog "c" 3 5 = .ok gapSnapshot := by decide +kernel

/-- The same log, appended to behind the cut. -/
theorem hydrate_sample : hydrate gapCodec flatMac none ((PlainWrite.append (gapEvent 4)).exec flatMac noCodec gapLog) "c"
    (some [0x84]) (some 3) = .ok [gapEvent 1, gapEvent 3, gapEvent 4] := by
  have hahead : ∀ w ∈ [PlainWrite.append (gapEvent 4)], w.Ahead "c" 3 := by
    intro w hw
    obtain rfl := List.mem_singleton.1 hw
    exact fun _ => .inr (by decide)
  have heq := (((hydrate_iff flatMac noCodec gapCodec_inverts "c").1 gapLog _ [.append (gapEvent 4)] 3 5 gapSnapshot [0x84]
    build_gapLog encode_gapSnapshot ⟨_, rfl, rfl⟩).2 (by decide) (by decide +kernel) hahead)
  rw [heq]
  decide +kernel

/-- **An append under the cut is lost**: sequence 2 is free, the append succeeds, a replay reads it and the hydration
does not. -/
theorem hydrate_loses_append : ¬ ∀ (mac : Mac) (codec : Codec) (snapshots : SnapshotCodec), snapshots.Inverts →
    ∀ (c : String) (db db' : Db) (writes : List PlainWrite) (u now : Int) (snap : Snapshot) (blob : List UInt8),
      u ≤ lastSeq db c → buildSnapshot mac none db c u now = .ok snap → snapshots.encode snap = .ok blob →
      Run (PlainStep mac codec) db writes db' →
      hydrate snapshots mac none db' c (some blob) (some u) = replaySince mac none db' c 0 := by
  intro hall
  have heq := hall flatMac noCodec gapCodec gapCodec_inverts "c" gapLog
    ((PlainWrite.append (gapEvent 2)).exec flatMac noCodec gapLog) [.append (gapEvent 2)] 3 5 gapSnapshot [0x84]
    (by decide +kernel) build_gapLog encode_gapSnapshot ⟨_, rfl, rfl⟩
  revert heq
  decide +kernel

end Execlaw
