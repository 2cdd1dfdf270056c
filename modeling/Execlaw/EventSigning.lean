import Execlaw.EventWrite
/-!
# EventSigning — the two paths that sign stored rows (`core/src/events.rs`)

`backfillNullTags` and `resignAllWithCurrentKey` sign the text of the `kind` column.  The verifier signs what
`EventKind.parse` reads there, printed again, and every text it does not know prints as `other`.  The two byte strings
are the same exactly when the stored text is a wire form.
-/
namespace Execlaw

open Wire EventHmac

variable {mac : Mac} {ring : KeyRing} {db db' : Db}

structure BackfillReport where
  signed : Nat
  skipped : Nat
  nullRemaining : Nat
deriving DecidableEq

/-- The primary key of `state_events`. -/
def EventRow.key (r : EventRow) : String × Int := (r.conversationId, r.seq)

def storedCanonical (r : EventRow) : List UInt8 :=
  canonicalBytes r.conversationId r.seq r.kind r.committedAt r.actor r.payload

def signRow (mac : Mac) (key : List UInt8) (keyId : Int) (db : Db) (r : EventRow) : Db :=
  { db with events := db.events.map (fun e =>
      if e.key = r.key then { e with tag := some (signEvent mac key (storedCanonical r)).bytes, keyId := keyId }
      else e) }

def signingKey (ring : Option KeyRing) (missing refusal : String) (db : Db) : Except DbError (List UInt8 × Int) :=
  match ring with
  | none => .error (.config missing)
  | some ring =>
    match ring.currentKey with
    | none => .error (.config "KeyRing has no key registered for current_id")
    | some key => if 0 < db.heads.length then .error (.invariant refusal) else .ok (key, ring.currentId)

def backfillNullTags (mac : Mac) (ring : Option KeyRing) (db : Db) : Except DbError BackfillReport × Db :=
  match signingKey ring "backfill_null_tags requires a KeyRing — attach via with_key_ring or with_hmac_key"
      "cannot rewrite legacy tags after v2 checkpoints exist" db with
  | .error e => (.error e, db)
  | .ok (key, keyId) =>
    let nullRows := db.events.filter (fun r => r.tag.isNone)
    let db := nullRows.foldl (signRow mac key keyId) db
    let nullRemaining := (db.events.filter (fun r => r.tag.isNone)).length
    let signedTotal := (db.events.filter (fun r => r.tag.isSome)).length
    (.ok { signed := nullRows.length, skipped := signedTotal - nullRows.length, nullRemaining := nullRemaining }, db)

def resignAllWithCurrentKey (mac : Mac) (ring : Option KeyRing) (db : Db) : Except DbError BackfillReport × Db :=
  match signingKey ring "resign_all_with_current_key requires a KeyRing"
      "destructive re-signing is disabled after v2 checkpoints exist; retain old keys" db with
  | .error e => (.error e, db)
  | .ok (key, keyId) =>
    (.ok { signed := db.events.length, skipped := 0, nullRemaining := 0 },
      db.events.foldl (signRow mac key keyId) db)

/-! ## What the two paths write -/

def EventRow.signed (mac : Mac) (key : List UInt8) (keyId : Int) (r : EventRow) : EventRow :=
  { r with tag := some (signEvent mac key (storedCanonical r)).bytes, keyId := keyId }

variable {key : List UInt8}

theorem signingKey_ok {missing refusal : String} {keyId : Int}
    (h : signingKey (some ring) missing refusal db = .ok (key, keyId)) :
    keyId = ring.currentId ∧ ring.keyFor ring.currentId = some key ∧ db.heads = [] := by
  unfold signingKey at h
  cases hkey : ring.currentKey with
  | none => simp only [hkey] at h; cases h
  | some k =>
    simp only [hkey] at h
    by_cases hheads : 0 < db.heads.length
    · rw [if_pos hheads] at h
      cases h
    · rw [if_neg hheads] at h
      cases h
      exact ⟨rfl, hkey, List.length_eq_zero_iff.1 (by omega)⟩

theorem foldl_signRow {keyId : Int} {stored : List EventRow} (hnd : (stored.map EventRow.key).Nodup) :
    ∀ (rows : List EventRow) (db : Db) (f : EventRow → EventRow),
    (∀ r ∈ rows, r ∈ stored) → (∀ e, f e = e ∨ f e = e.signed mac key keyId) → db.events = stored.map f →
    (rows.foldl (signRow mac key keyId) db).events =
        stored.map (fun e => if e ∈ rows then e.signed mac key keyId else f e) ∧
      (rows.foldl (signRow mac key keyId) db).heads = db.heads
  | [], db, f, _, _, h => by simpa using h
  | r :: rows, db, f, hrows, hf, h => by
    obtain ⟨hr, hrows⟩ := List.forall_mem_cons.1 hrows
    have hkey : ∀ e, (f e).key = e.key := by
      intro e
      rcases hf e with he | he
      · rw [he]
      · rw [he]; rfl
    have hstep : (signRow mac key keyId db r).events =
        stored.map (fun e => if e = r then e.signed mac key keyId else f e) := by
      unfold signRow
      rw [h, List.map_map]
      refine List.map_congr_left fun e he => ?_
      by_cases hk : e.key = r.key
      · obtain rfl := Table.eq_of_key hnd he hr hk
        rw [Function.comp, if_pos (hkey e), if_pos rfl]
        rcases hf e with hfe | hfe <;> rw [hfe] <;> rfl
      · rw [Function.comp, if_neg (by rwa [hkey]), if_neg (by rintro rfl; exact hk rfl)]
    have hf' : ∀ e, (if e = r then e.signed mac key keyId else f e) = e ∨
        (if e = r then e.signed mac key keyId else f e) = e.signed mac key keyId := by
      intro e
      by_cases he : e = r
      · exact .inr (if_pos he)
      · rw [if_neg he]
        exact hf e
    obtain ⟨hevents, hheads⟩ := foldl_signRow hnd rows _ _ hrows hf' hstep
    refine ⟨?_, hheads⟩
    rw [List.foldl_cons, hevents]
    refine List.map_congr_left fun e _ => ?_
    by_cases he : e ∈ rows
    · simp [he]
    · simp [he]

variable {report : BackfillReport}

theorem backfillNullTags_ok (hnd : (db.events.map EventRow.key).Nodup)
    (h : backfillNullTags mac (some ring) db = (.ok report, db')) : ∃ key, ring.keyFor ring.currentId = some key ∧
      db.heads = [] ∧ db'.heads = [] ∧ db'.events =
        db.events.map (fun e => if e.tag = none then e.signed mac key ring.currentId else e) := by
  unfold backfillNullTags at h
  split at h
  · cases h
  · rename_i key keyId hsign
    obtain ⟨rfl, hkey, hheads⟩ := signingKey_ok hsign
    have hall := @foldl_signRow mac key ring.currentId db.events hnd (db.events.filter (fun r => r.tag.isNone)) db id
      (fun r hr => (List.mem_filter.1 hr).1) (fun e => .inl rfl) (by simp)
    cases h
    refine ⟨key, hkey, hheads, hall.2.trans hheads, hall.1.trans (List.map_congr_left fun e he => ?_)⟩
    simp [he]

theorem resignAll_ok (hnd : (db.events.map EventRow.key).Nodup)
    (h : resignAllWithCurrentKey mac (some ring) db = (.ok report, db')) :
    ∃ key, ring.keyFor ring.currentId = some key ∧ db.heads = [] ∧ db'.heads = [] ∧
      db'.events = db.events.map (EventRow.signed mac key ring.currentId) := by
  unfold resignAllWithCurrentKey at h
  split at h
  · cases h
  · rename_i key keyId hsign
    obtain ⟨rfl, hkey, hheads⟩ := signingKey_ok hsign
    have hall := @foldl_signRow mac key ring.currentId db.events hnd db.events db id (fun r hr => hr)
      (fun e => .inl rfl) (by simp)
    cases h
    refine ⟨key, hkey, hheads, hall.2.trans hheads, hall.1.trans (List.map_congr_left fun e he => ?_)⟩
    simp [he]

/-! ## What the verifier accepts -/

def printedCanonical (r : EventRow) : List UInt8 :=
  canonicalBytes r.conversationId r.seq (EventKind.parse r.kind).asStr r.committedAt r.actor r.payload

def Covered (mac : Mac) (key : List UInt8) (r : EventRow) : Prop :=
  (EventKind.parse r.kind).asStr = r.kind ∨ mac key (storedCanonical r) = mac key (printedCanonical r)

theorem covered_iff {r : EventRow} :
    Covered mac key r ↔ mac key (storedCanonical r) = mac key (printedCanonical r) := by
  constructor
  · rintro (h | h)
    · rw [storedCanonical, printedCanonical, h]
    · exact h
  · exact .inr

theorem verify_stored_iff {keyId : Int} (hkey : ring.keyFor keyId = some key) (r : EventRow) :
    verify mac (some ring) r.toIntegrityRow.event (some (signEvent mac key (storedCanonical r)).bytes) keyId = .ok () ↔
      Covered mac key r := by
  rw [verify_ok_iff, covered_iff]
  constructor
  · intro h
    obtain ⟨key', hkey', hbytes⟩ := h _ rfl
    cases hkey.symm.trans hkey'
    exact Tag.ext_bytes hbytes
  · intro h b hb
    cases hb
    exact ⟨key, hkey, congrArg Tag.bytes h⟩

theorem toIntegrityRow_signed (key : List UInt8) (keyId : Int) (r : EventRow) :
    (r.signed mac key keyId).toIntegrityRow.event = r.toIntegrityRow.event := rfl

def Db.AllV1 (db : Db) : Prop := ∀ r ∈ db.events, r.integrityVersion = 1

instance (db : Db) : Decidable db.AllV1 := inferInstanceAs (Decidable (∀ r ∈ db.events, r.integrityVersion = 1))

theorem replay_ok_iff (hheads : db.heads = []) (hv1 : db.AllV1) :
    (∀ c k, ∃ evs, replaySince mac (some ring) db c k = .ok evs) ↔
      ∀ r ∈ db.events, verify mac (some ring) r.toIntegrityRow.event r.tag r.keyId = .ok () := by
  have hhead : ∀ c, loadIntegrityHead db c = none := by
    intro c
    rw [loadIntegrityHead, hheads]
    rfl
  have hintegrity : ∀ c k, (∃ evs, replaySince mac (some ring) db c k = .ok evs) ↔
      ∀ row ∈ loadIntegrityRows db c, verify mac (some ring) row.event row.tag row.keyId = .ok () := by
    intro c k
    have hversion : ∀ row ∈ loadIntegrityRows db c, row.integrityVersion = 1 := by
      intro row hrow
      obtain ⟨r, hr, -, rfl⟩ := mem_loadIntegrityRows.1 hrow
      exact hv1 r hr
    unfold replaySince
    rw [hhead]
    constructor
    · rintro ⟨evs, h⟩ row hrow
      obtain ⟨u, hverify, -⟩ := bind_eq_ok.1 h
      exact verify_ok_iff.2 ((verifyIntegrity_headless.1 hverify).1 row hrow (decide_eq_true (hversion row hrow)))
    · intro h
      refine ⟨_, bind_eq_ok.2 ⟨(), verifyIntegrity_headless.2 ⟨fun row hrow _ => verify_ok_iff.1 (h row hrow),
        fun row hrow => ?_⟩, rfl⟩⟩
      simp [IntegrityRow.isChained, hversion row hrow]
  constructor
  · intro h r hr
    exact (hintegrity r.conversationId 0).1 (h _ _) _ (mem_loadIntegrityRows.2 ⟨r, hr, rfl, rfl⟩)
  · intro h c k
    refine (hintegrity c k).2 fun row hrow => ?_
    obtain ⟨r, hr, -, rfl⟩ := mem_loadIntegrityRows.1 hrow
    exact h r hr

/-! ## Signatures over the stored kind -/

def EventRow.Stamped (mac : Mac) (ring : KeyRing) (r : EventRow) : Prop :=
  r.tag = none ∨ ∃ key, ring.keyFor r.keyId = some key ∧ r.tag = some (signEvent mac key (storedCanonical r)).bytes

/-- The key a row is signed under once `backfillNullTags` has run. -/
def EventRow.signedUnder (ring : KeyRing) (r : EventRow) : Int := if r.tag = none then ring.currentId else r.keyId

theorem allV1_map {f : EventRow → EventRow} (hf : ∀ r, (f r).integrityVersion = r.integrityVersion)
    (hevents : db'.events = db.events.map f) (hv1 : db.AllV1) : db'.AllV1 := by
  intro r hr
  rw [hevents] at hr
  obtain ⟨e, he, rfl⟩ := List.mem_map.1 hr
  rw [hf]
  exact hv1 e he

theorem replay_backfilled_iff (hnd : (db.events.map EventRow.key).Nodup) (hv1 : db.AllV1)
    (hstamped : ∀ r ∈ db.events, r.Stamped mac ring) (h : backfillNullTags mac (some ring) db = (.ok report, db')) :
    (∀ c k, ∃ evs, replaySince mac (some ring) db' c k = .ok evs) ↔
      ∀ r ∈ db.events, ∀ key, ring.keyFor (r.signedUnder ring) = some key → Covered mac key r := by
  obtain ⟨key, hkey, -, hheads, hevents⟩ := backfillNullTags_ok hnd h
  have hversion : ∀ r : EventRow, (if r.tag = none then r.signed mac key ring.currentId else r).integrityVersion =
      r.integrityVersion := by
    intro r
    by_cases ht : r.tag = none
    · rw [if_pos ht]; rfl
    · rw [if_neg ht]
  rw [replay_ok_iff hheads (allV1_map hversion hevents hv1), hevents, List.forall_mem_map]
  refine forall₂_congr fun r hr => ?_
  unfold EventRow.signedUnder
  by_cases ht : r.tag = none
  · rw [if_pos ht, if_pos ht, toIntegrityRow_signed]
    refine (verify_stored_iff hkey r).trans ⟨fun hc key' hkey' => ?_, fun hc => hc key hkey⟩
    cases hkey.symm.trans hkey'
    exact hc
  · rw [if_neg ht, if_neg ht]
    obtain ⟨key', hkey', htag⟩ := (hstamped r hr).resolve_left ht
    rw [htag]
    refine (verify_stored_iff hkey' r).trans ⟨fun hc key'' hkey'' => ?_, fun hc => hc key' hkey'⟩
    cases hkey'.symm.trans hkey''
    exact hc

theorem replay_resigned_iff (hnd : (db.events.map EventRow.key).Nodup) (hv1 : db.AllV1)
    (h : resignAllWithCurrentKey mac (some ring) db = (.ok report, db')) :
    (∀ c k, ∃ evs, replaySince mac (some ring) db' c k = .ok evs) ↔
      ∀ r ∈ db.events, ∀ key, ring.keyFor ring.currentId = some key → Covered mac key r := by
  obtain ⟨key, hkey, -, hheads, hevents⟩ := resignAll_ok hnd h
  have hversion : ∀ r : EventRow, (r.signed mac key ring.currentId).integrityVersion = r.integrityVersion := fun _ => rfl
  rw [replay_ok_iff hheads (allV1_map hversion hevents hv1), hevents, List.forall_mem_map]
  refine forall₂_congr fun r hr => ?_
  rw [toIntegrityRow_signed]
  refine (verify_stored_iff hkey r).trans ⟨fun hc key' hkey' => ?_, fun hc => hc key hkey⟩
  cases hkey.symm.trans hkey'
  exact hc

/-- **Signatures cover the stored kind** exactly on the kinds that print as they are stored, up to a collision of the
MAC: so for one row, and so for every replay behind a backfill or a re-signing of a v1 table. -/
theorem signatures_cover_iff (mac : Mac) (ring : KeyRing) :
    (∀ (r : EventRow) (keyId : Int) (key : List UInt8), ring.keyFor keyId = some key →
      (verify mac (some ring) r.toIntegrityRow.event (some (signEvent mac key (storedCanonical r)).bytes) keyId = .ok ()
        ↔ Covered mac key r)) ∧
    (∀ (db db' : Db) (report : BackfillReport), (db.events.map EventRow.key).Nodup → db.AllV1 →
      (∀ r ∈ db.events, r.Stamped mac ring) → backfillNullTags mac (some ring) db = (.ok report, db') →
      ((∀ c k, ∃ evs, replaySince mac (some ring) db' c k = .ok evs) ↔
        ∀ r ∈ db.events, ∀ key, ring.keyFor (r.signedUnder ring) = some key → Covered mac key r)) ∧
    ∀ (db db' : Db) (report : BackfillReport), (db.events.map EventRow.key).Nodup → db.AllV1 →
      resignAllWithCurrentKey mac (some ring) db = (.ok report, db') →
      ((∀ c k, ∃ evs, replaySince mac (some ring) db' c k = .ok evs) ↔
        ∀ r ∈ db.events, ∀ key, ring.keyFor ring.currentId = some key → Covered mac key r) :=
  ⟨fun r _ _ hkey => verify_stored_iff hkey r, fun _ _ _ hnd hv1 hstamped h => replay_backfilled_iff hnd hv1 hstamped h,
    fun _ _ _ hnd hv1 h => replay_resigned_iff hnd hv1 h⟩

def lengthMac : Mac := fun _ message => ⟨List.replicate 32 (UInt8.ofNat message.length), List.length_replicate⟩

def kindTable (kind : String) : Db where
  events := [{ conversationId := "c", seq := 1, kind := kind, payload := [], committedAt := 0, actor := none }]

/-- A known kind is backfilled and replays. -/
theorem signatures_cover_known : ∀ c k, ∃ evs, replaySince lengthMac (some (KeyRing.single 1 [1]))
    (backfillNullTags lengthMac (some (KeyRing.single 1 [1])) (kindTable "user_msg")).2 c k = .ok evs := by
  have hrun : (backfillNullTags lengthMac (some (KeyRing.single 1 [1])) (kindTable "user_msg")).1 = .ok ⟨1, 0, 0⟩ := by
    decide +kernel
  refine ((signatures_cover_iff lengthMac (KeyRing.single 1 [1])).2.1 (kindTable "user_msg") _ ⟨1, 0, 0⟩ (by decide)
    (by decide) ?_ (Prod.ext hrun rfl)).2 ?_
  · intro r hr
    exact .inl (by rw [List.mem_singleton.1 hr])
  · intro r hr key _
    rw [List.mem_singleton.1 hr]
    exact .inl (by decide)

/-- **A kind this version does not know is reported as tampering** once it is signed as it is stored. -/
theorem unknown_kind_tampered : ¬ ∀ (mac : Mac) (ring : KeyRing) (db db' : Db) (report : BackfillReport),
    (db.events.map EventRow.key).Nodup → db.AllV1 → (∀ r ∈ db.events, r.Stamped mac ring) →
    backfillNullTags mac (some ring) db = (.ok report, db') →
      ∀ c k, ∃ evs, replaySince mac (some ring) db' c k = .ok evs := by
  intro hall
  have hrun : (backfillNullTags lengthMac (some (KeyRing.single 1 [1])) (kindTable "memory.compacted")).1 =
      .ok ⟨1, 0, 0⟩ := by
    decide +kernel
  have hreplay := hall lengthMac (KeyRing.single 1 [1]) (kindTable "memory.compacted")
    (backfillNullTags lengthMac (some (KeyRing.single 1 [1])) (kindTable "memory.compacted")).2 ⟨1, 0, 0⟩ (by decide)
    (by decide) (fun r hr => .inl (by rw [List.mem_singleton.1 hr])) (Prod.ext hrun rfl) "c" 0
  have herr : replaySince lengthMac (some (KeyRing.single 1 [1]))
      (backfillNullTags lengthMac (some (KeyRing.single 1 [1])) (kindTable "memory.compacted")).2 "c" 0 =
      .error (.tamperDetected "event c:1 failed HMAC verification") := by
    decide +kernel
  rw [herr] at hreplay
  obtain ⟨evs, hevs⟩ := hreplay
  cases hevs

end Execlaw
