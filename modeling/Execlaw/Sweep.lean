import Execlaw.CommitBlocks
/-!
# Sweep — retention over the signed log (`core/src/event_retention.rs`, `core/src/ephemeral_sweeper.rs`)

Two sweepers delete expired rows of `state_events`.  Neither touches `state_event_integrity_heads`, so a conversation
with a head that loses a row no longer verifies.  A pass that takes rows only from conversations without a head
(`Spares`) keeps every conversation readable and writable, however many such passes run.
-/
namespace Execlaw

open Wire EventHmac Steps

variable {mac : Mac} {ring : KeyRing} {codec : Codec} {c : String} {db db' : Db}

/-! ## The sweepers -/

/-- `DELETE FROM state_events WHERE p`, under the foreign keys that point at a row. -/
def deleteEvents (p : EventRow → Bool) (db : Db) : Except DbError (Nat × Db) :=
  if db.events.any (fun r => p r && db.eventRefs.contains (r.conversationId, r.seq)) then
    .error (.sqlite "FOREIGN KEY constraint failed")
  else .ok ((db.events.filter p).length, { db with events := db.events.filter (fun r => !p r) })

def deleteConversations (p : ConversationRow → Bool) (db : Db) : Except DbError (Nat × Db) :=
  if db.conversations.any (fun r => p r && db.conversationRefs.contains r.conversationId) then
    .error (.sqlite "FOREIGN KEY constraint failed")
  else .ok ((db.conversations.filter p).length, { db with conversations := db.conversations.filter (fun r => !p r) })

namespace EventRetention

structure EventSweepReport where
  eventsDeleted : Nat
  conversationsDeleted : Nat

def saturatingSub (a b : Int) : Int := max (-9223372036854775808) (min (a - b) 9223372036854775807)

def cutoff (now retentionSecs : Int) : Int := max (saturatingSub now retentionSecs) 0

def unprotected (r : ConversationRow) : Bool := !r.isPinned && !r.isEphemeral

/-- The rows the first `DELETE` names. -/
def expired (db : Db) (now retentionSecs : Int) (row : EventRow) : Bool :=
  decide (row.committedAt < cutoff now retentionSecs) &&
    db.conversations.any (fun r => decide (r.conversationId = row.conversationId) && unprotected r)

def abandoned (db : Db) (now retentionSecs : Int) (r : ConversationRow) : Bool :=
  unprotected r && decide (r.lastActivityAt < cutoff now retentionSecs) &&
    !db.events.any (fun row => decide (row.conversationId = r.conversationId))

def sweepOnce (now retentionSecs : Int) (db : Db) : Except DbError EventSweepReport × Db :=
  match deleteEvents (expired db now retentionSecs) db with
  | .error e => (.error e, db)
  | .ok (events, db) =>
    match deleteConversations (abandoned db now retentionSecs) db with
    | .error e => (.error e, db)
    | .ok (conversations, db) => (.ok ⟨events, conversations⟩, db)

end EventRetention

namespace EphemeralSweeper

structure SweepReport where
  conversationsPurged : Nat := 0
  eventsDeleted : Nat := 0

def listExpiredEphemeral (db : Db) (now : Int) : List String :=
  (db.conversations.filter (fun r => r.isEphemeral && match r.ephemeralExpiresAt with
    | some t => decide (t ≤ now)
    | none => false)).map ConversationRow.conversationId

def purgeOne (cid : String) : Db → Except DbError Nat × Db :=
  transaction fun db => do
    let (deleted, db) ← deleteEvents (fun r => decide (r.conversationId = cid)) db
    return (deleted, { db with conversations := Table.updateKey ConversationRow.conversationId cid (fun r =>
      { r with lastSeq := 0, snapshotBlob := none, snapshotSeq := none, ephemeralExpiresAt := none }) db.conversations })

def purgeAll : List String → SweepReport → Db → Except DbError SweepReport × Db
  | [], report, db => (.ok report, db)
  | cid :: due, report, db =>
    match purgeOne cid db with
    | (.error e, db) => (.error e, db)
    | (.ok deleted, db) =>
      purgeAll due ⟨report.conversationsPurged + 1, report.eventsDeleted + deleted⟩ db

def sweepOnce (now : Int) (db : Db) : Except DbError SweepReport × Db :=
  purgeAll (listExpiredEphemeral db now) {} db

end EphemeralSweeper

/-! ## Passes -/

inductive Pass
  | retention (now retentionSecs : Int)
  | ephemeral (now : Int)

namespace Pass

def exec (db : Db) : Pass → Db
  | retention now secs => (EventRetention.sweepOnce now secs db).2
  | ephemeral now => (EphemeralSweeper.sweepOnce now db).2

def selects (db : Db) : Pass → EventRow → Bool
  | retention now secs, row => EventRetention.expired db now secs row
  | ephemeral now, row => (EphemeralSweeper.listExpiredEphemeral db now).contains row.conversationId

/-- **The pass spares the signed conversations**: no row it selects is of a conversation with an integrity head. -/
def Spares (db : Db) (pass : Pass) : Prop :=
  ∀ row ∈ db.events, pass.selects db row → loadIntegrityHead db row.conversationId = none

instance (db : Db) (pass : Pass) : Decidable (pass.Spares db) :=
  inferInstanceAs (Decidable (∀ row ∈ db.events, pass.selects db row → loadIntegrityHead db row.conversationId = none))

def SparingStep (db : Db) (pass : Pass) (db' : Db) : Prop := pass.Spares db ∧ db' = pass.exec db

end Pass

/-- Rows are gone, all of them in `D`, and the heads are as they were. -/
def Deletes (D : EventRow → Prop) (db db' : Db) : Prop :=
  db'.heads = db.heads ∧ ∃ keep : EventRow → Bool, db'.events = db.events.filter keep ∧
    ∀ row ∈ db.events, keep row = false → D row

theorem Deletes.refl (D : EventRow → Prop) (db : Db) : Deletes D db db :=
  ⟨rfl, fun _ => true, by simp, by simp⟩

variable {D : EventRow → Prop}

theorem Deletes.trans {db₁ db₂ db₃ : Db} (h : Deletes D db₁ db₂) (h' : Deletes D db₂ db₃) : Deletes D db₁ db₃ := by
  obtain ⟨hheads, keep, hev, hD⟩ := h
  obtain ⟨hheads', keep', hev', hD'⟩ := h'
  refine ⟨hheads'.trans hheads, fun row => keep row && keep' row, ?_, fun row hrow hk => ?_⟩
  · rw [hev', hev, List.filter_filter]
    exact List.filter_congr fun row _ => Bool.and_comm ..
  · rcases Bool.and_eq_false_iff.1 hk with hk | hk
    · exact hD row hrow hk
    · by_cases hkeep : keep row = false
      · exact hD row hrow hkeep
      · exact hD' row (hev ▸ List.mem_filter.2 ⟨hrow, by simpa using hkeep⟩) hk

theorem deletes_deleteEvents {p : EventRow → Bool} {n : Nat} (h : deleteEvents p db = .ok (n, db')) :
    Deletes (fun row => p row) db db' := by
  unfold deleteEvents at h
  split at h
  · cases h
  · cases h
    exact ⟨rfl, _, rfl, fun row _ hk => by simpa using hk⟩

theorem deletes_retention (db : Db) (now secs : Int) :
    Deletes (fun row => EventRetention.expired db now secs row) db (EventRetention.sweepOnce now secs db).2 := by
  unfold EventRetention.sweepOnce
  cases h : deleteEvents (EventRetention.expired db now secs) db with
  | error e => exact Deletes.refl _ db
  | ok p =>
    have hdel := deletes_deleteEvents (h : deleteEvents _ db = .ok (p.1, p.2))
    dsimp only
    unfold deleteConversations
    split
    · rename_i heq
      exact hdel
    · rename_i n db₂ heq
      split at heq
      · cases heq
      · cases heq
        exact hdel

theorem deletes_purgeAll (D : EventRow → Prop) : ∀ {due : List String} {report : EphemeralSweeper.SweepReport} {db : Db},
    (∀ row : EventRow, row.conversationId ∈ due → D row) → Deletes D db (EphemeralSweeper.purgeAll due report db).2
  | [], _, db, _ => Deletes.refl D db
  | cid :: due, report, db, hD => by
    have hone : Deletes D db (EphemeralSweeper.purgeOne cid db).2 := by
      refine transaction_snd (P := Deletes D db) (Deletes.refl D db) fun n db' h => ?_
      obtain ⟨⟨k, db₁⟩, h₁, h⟩ := bind_eq_ok.1 h
      cases h
      obtain ⟨hheads, keep, hev, hk⟩ := deletes_deleteEvents h₁
      refine ⟨hheads, keep, hev, fun row hrow hf => hD row ?_⟩
      have := hk row hrow hf
      simp only [decide_eq_true_eq] at this
      simp [this]
    unfold EphemeralSweeper.purgeAll
    cases hp : EphemeralSweeper.purgeOne cid db with
    | mk res db₁ =>
      rw [hp] at hone
      cases res with
      | error e => exact hone
      | ok n => exact hone.trans (deletes_purgeAll D fun row hrow => hD row (List.mem_cons_of_mem _ hrow))

theorem deletes_exec (db : Db) (pass : Pass) : Deletes (fun row => pass.selects db row) db (pass.exec db) := by
  cases pass with
  | retention now secs => exact deletes_retention db now secs
  | ephemeral now =>
    refine deletes_purgeAll _ fun row hrow => ?_
    simpa [Pass.selects] using hrow

/-! ## Rows behind a sweep -/

theorem load_filter {keep : EventRow → Bool} (h : db'.events = db.events.filter keep) (c : String) :
    loadIntegrityRows db' c = ((Table.orderBy EventRow.seq
      (db.events.filter (fun r => decide (r.conversationId = c)))).filter keep).map EventRow.toIntegrityRow := by
  unfold loadIntegrityRows
  rw [h, List.filter_filter, ← Table.orderBy_filter, List.filter_filter]
  congr 2
  exact List.filter_congr fun r _ => Bool.and_comm ..

theorem Deletes.sublist (h : Deletes D db db') (c : String) :
    (loadIntegrityRows db' c).Sublist (loadIntegrityRows db c) := by
  obtain ⟨-, keep, hev, -⟩ := h
  rw [load_filter hev]
  exact List.filter_sublist.map _

theorem Deletes.load_eq (h : Deletes D db db') {c : String} (hD : ∀ row ∈ db.events, D row → row.conversationId ≠ c) :
    loadIntegrityRows db' c = loadIntegrityRows db c := by
  obtain ⟨-, keep, hev, hk⟩ := h
  rw [load_filter hev, List.filter_eq_self.2]
  · rfl
  · intro row hrow
    rw [Table.mem_orderBy, List.mem_filter, decide_eq_true_eq] at hrow
    by_contra hf
    exact hD row hrow.1 (hk row hrow.1 (by simpa using hf)) hrow.2

def Positive (rows : List IntegrityRow) : Prop := ∀ row ∈ rows, 1 ≤ row.event.seq

theorem tailSeq_nonneg {rows : List IntegrityRow} (h : Positive rows) : 0 ≤ tailSeq rows := by
  rcases List.eq_nil_or_concat rows with rfl | ⟨init, last, rfl⟩
  · exact le_rfl
  · rw [List.concat_eq_append, tailSeq_snoc]
    have := h last (by simp)
    omega

theorem LegacyOnly.sublist {rows rows' : List IntegrityRow} (h : LegacyOnly mac ring rows) (hsub : rows'.Sublist rows)
    (hpos : Positive rows) : LegacyOnly mac ring rows' :=
  ⟨h.ascending.sublist hsub, fun row hrow => h.version row (hsub.subset hrow),
    fun row hrow => h.legacy row (hsub.subset hrow), tailSeq_nonneg fun row hrow => hpos row (hsub.subset hrow)⟩

theorem intact_sparing {pass : Pass} (hs : pass.Spares db) (hpos : Positive (loadIntegrityRows db c))
    (hi : Intact mac ring db c) : Intact mac ring (pass.exec db) c := by
  have hdel := deletes_exec db pass
  have hhead : loadIntegrityHead (pass.exec db) c = loadIntegrityHead db c := loadIntegrityHead_congr hdel.1 c
  unfold Intact at hi ⊢
  rw [hhead]
  cases hh : loadIntegrityHead db c with
  | none =>
    rw [hh] at hi
    exact hi.sublist (hdel.sublist c) hpos
  | some head =>
    rw [hh] at hi
    have hrows : loadIntegrityRows (pass.exec db) c = loadIntegrityRows db c := by
      refine hdel.load_eq fun row hrow hsel hc => ?_
      have := hs row hrow hsel
      rw [hc, hh] at this
      cases this
    rw [hrows]
    exact hi

theorem intact_sparing_run {passes : List Pass} (hrun : Run Pass.SparingStep db passes db')
    (hpos : Positive (loadIntegrityRows db c)) (hi : Intact mac ring db c) :
    Positive (loadIntegrityRows db' c) ∧ Intact mac ring db' c := by
  refine run_invariant (P := fun db => Positive (loadIntegrityRows db c) ∧ Intact mac ring db c) hrun ⟨hpos, hi⟩ ?_
  rintro db₁ pass _ ⟨hpos, hi⟩ ⟨hs, rfl⟩
  exact ⟨fun row hrow => hpos row (((deletes_exec db₁ pass).sublist c).subset hrow), intact_sparing hs hpos hi⟩

/-! ## Retention and the signed chain -/

theorem positive_sound {l : Log} {old : List EventRecord} (hs : l.Sound mac c old) (hold : ∀ ev ∈ old, 1 ≤ ev.seq) :
    Positive (loadIntegrityRows l.db c) := by
  intro row hrow
  obtain ⟨new, hnew, hpos⟩ := hs.grown
  have hev : row.event ∈ old ++ new := by
    rw [← hnew, ← hs.committed]
    exact List.mem_map_of_mem hrow
  rcases List.mem_append.1 hev with hev | hev
  · exact hold _ hev
  · exact hpos _ hev

/-- **Sparing sweeps never break the signed chain.**  Build any log with a key ring, over legacy rows numbered from 1 on,
and run any passes of which none takes a row from a conversation with a head: then every conversation replays with
exactly the rows that are left, and its next append and its next commit succeed. -/
theorem run_sweeps_spared {l l' : Log} {calls : List Call} {passes : List Pass} {db' : Db}
    (hstart : ∀ c, l.Start mac c) (hpos : ∀ c, Positive (loadIntegrityRows l.db c))
    (hrun : Run (Log.Step mac codec) l calls l') (hsweeps : Run Pass.SparingStep l'.db passes db') (c : String) :
    replaySince mac (some l'.ring) db' c 0 = .ok (eventsOf db' c) ∧
      (∀ ev, ev.conversationId = c → ev.seq = lastSeq db' c + 1 →
        ∃ db'', append mac (some l'.ring) ev db' = (.ok (), db'')) ∧
      ∀ events now batch, enforceToolPairing codec c (lastSeq db' c) events now = .ok batch →
        ∃ out db'', commitTurn mac codec (some l'.ring) c (lastSeq db' c) events now db' = (.ok out, db'') := by
  have hs := sound_run hrun (hstart c).sound
  obtain ⟨key, hkey⟩ := hs.key
  have hold : ∀ ev ∈ eventsOf l.db c, 1 ≤ ev.seq := by
    intro ev hev
    obtain ⟨row, hrow, rfl⟩ := List.mem_map.1 hev
    exact hpos c row hrow
  obtain ⟨hpos', hi⟩ := intact_sparing_run hsweeps (positive_sound hs hold) hs.intact
  refine ⟨?_, fun ev hev hseq => ?_, fun events now batch hbatch => ?_⟩
  · rw [hi.replaySince, List.filter_eq_self.2]
    intro ev hev
    obtain ⟨row, hrow, rfl⟩ := List.mem_map.1 hev
    have := hpos' row hrow
    exact decide_eq_true (by omega)
  · subst hev
    rw [lastSeq_eq_tailSeq] at hseq
    exact append_succeeds hkey hi hseq
  · rw [lastSeq_eq_tailSeq] at hbatch ⊢
    exact commitTurn_succeeds hkey hi le_rfl hbatch

def sampleConversation (cid : String) : ConversationRow :=
  { conversationId := cid, isPinned := false, isEphemeral := false, ephemeralExpiresAt := none, lastActivityAt := 0,
    lastSeq := 0, snapshotBlob := none, snapshotSeq := none }

/-- A legacy row of `c` and nothing of `d`, both open to retention. -/
def retentionLog : Log :=
  { legacyLog 1 with db := { (legacyLog 1).db with conversations := [sampleConversation "c", sampleConversation "d"] } }

/-- Its first signed append, to `d`. -/
def appendToD : Call := .append { sampleEvent 1 with conversationId := "d", committedAt := 95 }

theorem run_sweeps_spared_sample :
    Pass.Spares (retentionLog.exec flatMac noCodec appendToD).2.db (.retention 100 10) ∧
      ((Pass.retention 100 10).exec (retentionLog.exec flatMac noCodec appendToD).2.db).events.length = 1 ∧
      replaySince flatMac (some retentionLog.ring)
        ((Pass.retention 100 10).exec (retentionLog.exec flatMac noCodec appendToD).2.db) "d" 0 =
        .ok (eventsOf ((Pass.retention 100 10).exec (retentionLog.exec flatMac noCodec appendToD).2.db) "d") := by
  have hspares : Pass.Spares (retentionLog.exec flatMac noCodec appendToD).2.db (.retention 100 10) := by decide
  have hstart : ∀ c, retentionLog.Start flatMac c := fun c =>
    have h := start_legacyLog 1 (by decide) c
    ⟨h.key, h.legacy, h.headless, h.committed⟩
  have hpos : ∀ c, Positive (loadIntegrityRows retentionLog.db c) := fun c row hrow => by
    obtain ⟨r, hr, -, rfl⟩ := mem_loadIntegrityRows.1 hrow
    rw [List.mem_singleton.1 hr]
    decide
  have hrun : Run (Log.Step flatMac noCodec) retentionLog [appendToD] (retentionLog.exec flatMac noCodec appendToD).2 :=
    ⟨_, ⟨trivial, rfl⟩, rfl⟩
  have hsweeps : Run Pass.SparingStep _ [.retention 100 10] _ := ⟨_, ⟨hspares, rfl⟩, rfl⟩
  exact ⟨hspares, rfl, (run_sweeps_spared hstart hpos hrun hsweeps "d").1⟩

/-- One keyed append, one retention pass over it: the replay reports tampering, and the next append is refused. -/
theorem replay_fails_behind_retention :
    ∃ l' e, Run (Log.Step flatMac noCodec) { retentionLog with db := { retentionLog.db with events := [] }, committed := [] }
        [.append (sampleEvent 1)] l' ∧
      lastSeq ((Pass.retention 100 10).exec l'.db) "c" = 0 ∧
      replaySince flatMac (some l'.ring) ((Pass.retention 100 10).exec l'.db) "c" 0 = .error (.tamperDetected e) ∧
      (append flatMac (some l'.ring) (sampleEvent 1) ((Pass.retention 100 10).exec l'.db)).1 =
        .error (.tamperDetected e) :=
  ⟨_, _, ⟨_, ⟨trivial, rfl⟩, rfl⟩, rfl, rfl, rfl⟩

/-- **A pass that takes a v2 row breaks its conversation**, whatever the MAC: the head still counts the row. -/
theorem replay_fails_behind_sweep {head : IntegrityHead} (hi : Intact mac ring db c) {pass : Pass}
    (hhead : loadIntegrityHead db c = some head)
    (hless : ((loadIntegrityRows (pass.exec db) c).filter IntegrityRow.isChained).length <
      ((loadIntegrityRows db c).filter IntegrityRow.isChained).length) :
    verifyIntegrity mac (some ring) c (loadIntegrityRows (pass.exec db) c) (loadIntegrityHead (pass.exec db) c) ≠
      .ok () := by
  intro h
  rw [loadIntegrityHead_congr (deletes_exec db pass).1, hhead] at h
  obtain ⟨-, tail, -, ⟨key, -, hrun⟩, -⟩ := verifyIntegrity_head.1 h
  unfold Intact at hi
  rw [hhead] at hi
  obtain ⟨tail', -, ⟨key', -, hrun'⟩, -⟩ := hi.anchored
  have hlen : head.headSeq + 1 = head.chainStartSeq + _ := (numbered_of_run hrun).2
  have hlen' : head.headSeq + 1 = head.chainStartSeq + _ := (numbered_of_run hrun').2
  omega

theorem replay_fails_behind_sweep_sample :
    let l := (retentionLog.exec flatMac noCodec appendToD).2
    let db := (Pass.retention 1000 10).exec l.db
    verifyIntegrity flatMac (some l.ring) "d" (loadIntegrityRows db "d") (loadIntegrityHead db "d") ≠ .ok () := by
  have h := start_legacyLog 1 (by decide) "d"
  have hstart : retentionLog.Start flatMac "d" := ⟨h.key, h.legacy, h.headless, h.committed⟩
  have hrun : Run (Log.Step flatMac noCodec) retentionLog [appendToD] (retentionLog.exec flatMac noCodec appendToD).2 :=
    ⟨_, ⟨trivial, rfl⟩, rfl⟩
  exact replay_fails_behind_sweep (sound_run hrun hstart.sound).intact rfl (by decide)

end Execlaw
