import Execlaw.EventWrite
/-!
# EventHistory — runs of the keyed log

A `Log` is the database, the key ring and, as a ghost, everything committed so far in commit order.  A `Call` is one
operation on it: an append, a commit, a checkpoint, or a change of the ring.  Each call keeps `Sound` for every
conversation, so every run does: the log verifies, its v2 rows leave no gap, and a replay returns what was committed.
-/
namespace Execlaw

open Wire EventHmac Steps

variable {mac : Mac} {ring : KeyRing} {codec : Codec} {cid c : String} {db db' : Db} {old : List EventRecord}

/-! ## What a call does to its own conversation -/

variable {ev : EventRecord}

theorem append_keyed_iff : append mac (some ring) ev db = (.ok (), db') ↔
    ∃ head key head' db₁, openIntegrityHead mac ring db ev.conversationId (loadIntegrityRows db ev.conversationId) =
        .ok head ∧ ev.seq = head.headSeq + 1 ∧ ring.currentKey = some key ∧
      signAndInsert mac ring ev.conversationId key ev head db = .ok (head', db₁) ∧
      db' = writeIntegrityHead db₁ ev.conversationId head' := by
  unfold append
  rw [transaction_ok]
  rw [bind_eq_ok]
  constructor
  · rintro ⟨head, hhead, h⟩
    by_cases hseq : ev.seq = head.headSeq + 1
    · rw [if_neg (not_not.2 hseq)] at h
      cases hkey : ring.currentKey with
      | none => rw [hkey] at h; cases h
      | some key =>
        rw [hkey] at h
        obtain ⟨⟨head', db₁⟩, h₁, h⟩ := bind_eq_ok.1 h
        cases h
        exact ⟨head, key, head', db₁, hhead, hseq, rfl, h₁, rfl⟩
    · rw [if_pos hseq] at h
      cases h
  · rintro ⟨head, key, head', db₁, hhead, hseq, hkey, h₁, rfl⟩
    refine ⟨head, hhead, ?_⟩
    rw [if_neg (not_not.2 hseq), hkey]
    exact bind_eq_ok.2 ⟨_, h₁, rfl⟩

variable {projection : Projection}

theorem commitMaterialized_keyed_iff {base : Int} {batch out : List EventRecord} :
    commitMaterialized mac codec (some ring) cid base projection batch db = .ok (out, db') ↔
    ∃ head key head' db₁, openIntegrityHead mac ring db cid (loadIntegrityRows db cid) = .ok head ∧
      ring.currentKey = some key ∧
      insertChained mac ring cid key (rebase batch (tailSeq (loadIntegrityRows db cid) - base)) head db =
        .ok (head', db₁) ∧
      finishCommit codec cid projection (rebase batch (tailSeq (loadIntegrityRows db cid) - base))
        (writeIntegrityHead db₁ cid head') = .ok (out, db') := by
  unfold commitMaterialized
  rw [bind_eq_ok]
  constructor
  · rintro ⟨head, hhead, h⟩
    cases hkey : ring.currentKey with
    | none => rw [hkey] at h; cases h
    | some key =>
      rw [hkey] at h
      obtain ⟨⟨head', db₁⟩, h₁, h⟩ := bind_eq_ok.1 h
      exact ⟨head, key, head', db₁, hhead, rfl, h₁, h⟩
  · rintro ⟨head, key, head', db₁, hhead, hkey, h₁, h⟩
    refine ⟨head, hhead, ?_⟩
    rw [hkey]
    exact bind_eq_ok.2 ⟨_, h₁, h⟩

variable {events : List PendingEvent} {base now : Int} {out : List EventRecord}

theorem commitTurnWithProjection_ok_iff {ring : Option KeyRing} :
    commitTurnWithProjection mac codec ring cid base events projection now db = (.ok out, db') ↔
      ∃ batch, enforceToolPairing codec cid base events now = .ok batch ∧
        commitMaterialized mac codec ring cid base projection batch db = .ok (out, db') := by
  unfold commitTurnWithProjection
  cases enforceToolPairing codec cid base events now with
  | error e => simp
  | ok batch => simp [transaction_ok]

def eventsOf (db : Db) (cid : String) : List EventRecord := (loadIntegrityRows db cid).map IntegrityRow.event

theorem eventsOf_congr (h : db'.events = db.events) (cid : String) : eventsOf db' cid = eventsOf db cid := by
  unfold eventsOf
  rw [loadIntegrityRows_congr h]

theorem Intact.tail_nonneg (h : Intact mac ring db cid) : 0 ≤ tailSeq (loadIntegrityRows db cid) := by
  unfold Intact at h
  cases hh : loadIntegrityHead db cid with
  | none => rw [hh] at h; exact h.tail
  | some head =>
    rw [hh] at h
    obtain ⟨tail, hstart, ⟨key, -, hrun⟩, -⟩ := h.anchored
    have hlen : head.headSeq + 1 = head.chainStartSeq + _ := (numbered_of_run hrun).2
    rw [h.tail]
    omega

theorem append_spec (hi : Intact mac ring db ev.conversationId) (h : append mac (some ring) ev db = (.ok (), db')) :
    eventsOf db' ev.conversationId = eventsOf db ev.conversationId ++ [ev] ∧
      Numbered (tailSeq (loadIntegrityRows db ev.conversationId) + 1) [ev] ∧
      Intact mac ring db' ev.conversationId := by
  obtain ⟨head, key, head', db₁, hhead, hseq, hkey, h₁, rfl⟩ := append_keyed_iff.1 h
  obtain ⟨head₀, hhead₀, hr⟩ := openIntegrityHead_spec hkey hi
  obtain rfl : head₀ = head := Except.ok.inj (hhead₀.symm.trans hhead)
  obtain ⟨head₁, db₂, h₂, -, hload, hr₁⟩ := signAndInsert_spec hkey rfl hr hseq
  cases h₂.symm.trans h₁
  refine ⟨hload, ⟨?_, trivial⟩, intact_of_ready (loadIntegrityHead_write ..) hr₁⟩
  rw [hr.tail, hseq]

variable {key : List UInt8}

theorem append_succeeds (hkey : ring.currentKey = some key) (hi : Intact mac ring db ev.conversationId)
    (hseq : ev.seq = tailSeq (loadIntegrityRows db ev.conversationId) + 1) :
    ∃ db', append mac (some ring) ev db = (.ok (), db') := by
  obtain ⟨head, hhead, hr⟩ := openIntegrityHead_spec hkey hi
  rw [hr.tail] at hseq
  obtain ⟨head₁, db₁, h₁, -⟩ := signAndInsert_spec hkey rfl hr hseq
  exact ⟨_, append_keyed_iff.2 ⟨head, key, head₁, db₁, hhead, hseq, hkey, h₁, rfl⟩⟩

theorem commit_spec (hi : Intact mac ring db cid)
    (h : commitTurnWithProjection mac codec (some ring) cid base events projection now db = (.ok out, db')) :
    eventsOf db' cid = eventsOf db cid ++ out ∧ Numbered (tailSeq (loadIntegrityRows db cid) + 1) out ∧
      Intact mac ring db' cid := by
  obtain ⟨batch, hbatch, h⟩ := commitTurnWithProjection_ok_iff.1 h
  obtain ⟨head, key, head', db₁, hhead, hkey, h₁, hfin⟩ := commitMaterialized_keyed_iff.1 h
  obtain ⟨rfl, he, hh⟩ := finishCommit_spec hfin
  obtain ⟨head₀, hhead₀, hr⟩ := openIntegrityHead_spec hkey hi
  obtain rfl : head₀ = head := Except.ok.inj (hhead₀.symm.trans hhead)
  have hcid := rebase_conversationId (d := tailSeq (loadIntegrityRows db cid) - base)
    (enforceToolPairing_spec hbatch).1
  have hnum := numbered_of_insertChained h₁
  obtain ⟨head₁, db₂, h₂, hr₁⟩ := insertChained_spec hkey hcid hr hnum
  obtain ⟨rfl, rfl⟩ := Prod.mk.inj (Except.ok.inj (h₂.symm.trans h₁))
  have hhead' : loadIntegrityHead db' cid = some head₁ := by
    rw [loadIntegrityHead_congr hh]
    exact loadIntegrityHead_write ..
  refine ⟨?_, by rwa [← hr.tail] at hnum, intact_of_ready hhead' ?_⟩
  · rw [eventsOf_congr he]
    exact (insertChained_adds h₁).load hcid hnum (by rw [hr.tail]; omega)
  · rw [loadIntegrityRows_congr he]
    exact hr₁

theorem commitTurn_succeeds (hkey : ring.currentKey = some key) (hi : Intact mac ring db cid) {batch : List EventRecord}
    (hbase : base ≤ tailSeq (loadIntegrityRows db cid))
    (hbatch : enforceToolPairing codec cid base events now = .ok batch) :
    ∃ out db', commitTurn mac codec (some ring) cid base events now db = (.ok out, db') := by
  obtain ⟨hcid, hnum⟩ := enforceToolPairing_spec hbatch
  obtain ⟨head, hhead, hr⟩ := openIntegrityHead_spec hkey hi
  have hnum' := rebase_numbered hnum hbase
  rw [hr.tail] at hnum'
  obtain ⟨head₁, db₁, h₁, -⟩ := insertChained_spec hkey (rebase_conversationId hcid) hr hnum'
  rw [← hr.tail] at h₁
  exact ⟨_, _, commitTurnWithProjection_ok_iff.2 ⟨batch, hbatch,
    commitMaterialized_keyed_iff.2 ⟨head, key, head₁, db₁, hhead, hkey, h₁, rfl⟩⟩⟩

theorem establish_spec {out : Bool} (hkey : ring.currentKey = some key) (hi : Intact mac ring db cid)
    (h : establishV2Checkpoint mac (some ring) cid db = (.ok out, db')) :
    db'.events = db.events ∧ Intact mac ring db' cid := by
  have hopen := openIntegrityHead_spec hkey hi
  unfold establishV2Checkpoint at h
  rw [transaction_ok] at h
  unfold openIntegrityHead at hopen
  cases hh : loadIntegrityHead db cid with
  | some head =>
    rw [hh] at h
    obtain ⟨u, -, h⟩ := bind_eq_ok.1 h
    cases h
    exact ⟨rfl, hi⟩
  | none =>
    rw [hh] at h hopen
    obtain ⟨head, hhead, h⟩ := bind_eq_ok.1 h
    obtain ⟨head₀, hhead₀, hr⟩ := hopen
    obtain rfl : head₀ = head := Except.ok.inj (hhead₀.symm.trans hhead)
    cases h
    exact ⟨rfl, intact_of_ready (loadIntegrityHead_write ..) hr⟩

/-! ## What a call does to the other conversations -/

/-- The rows and the head of `c` are as they were. -/
def Untouched (c : String) (db db' : Db) : Prop :=
  loadIntegrityRows db' c = loadIntegrityRows db c ∧ loadIntegrityHead db' c = loadIntegrityHead db c

theorem Untouched.intact (hu : Untouched c db db') (h : Intact mac ring db c) : Intact mac ring db' c := by
  unfold Intact at h ⊢
  rw [hu.1, hu.2]
  exact h

variable {evs : List EventRecord}

theorem Adds.untouched (h : Adds evs db db') (hne : ∀ ev ∈ evs, ev.conversationId ≠ c) : Untouched c db db' :=
  ⟨h.load_of_ne hne, loadIntegrityHead_congr h.heads c⟩

theorem append_untouched (hne : c ≠ ev.conversationId) : Untouched c db (append mac (some ring) ev db).2 := by
  refine transaction_snd (P := Untouched c db) ⟨rfl, rfl⟩ fun a db' h => ?_
  obtain ⟨head, key, head', db₁, -, -, -, h₁, rfl⟩ := append_keyed_iff.1 (transaction_ok.2 h)
  obtain ⟨row, hrow, rfl⟩ := signAndInsert_adds h₁
  have hadds : Adds [ev] db (db.addEvent row) := ⟨row, hrow, rfl⟩
  obtain ⟨hrows, hhead⟩ := hadds.untouched (c := c) (by simpa using Ne.symm hne)
  exact ⟨hrows, (loadIntegrityHead_write_of_ne hne ..).trans hhead⟩

theorem commit_untouched (hne : c ≠ cid) :
    Untouched c db (commitTurnWithProjection mac codec (some ring) cid base events projection now db).2 := by
  unfold commitTurnWithProjection
  cases hbatch : enforceToolPairing codec cid base events now with
  | error e => exact ⟨rfl, rfl⟩
  | ok batch =>
    refine transaction_snd (P := Untouched c db) ⟨rfl, rfl⟩ fun out db' h => ?_
    obtain ⟨head, key, head', db₁, -, -, h₁, hfin⟩ := commitMaterialized_keyed_iff.1 h
    obtain ⟨-, he, hh⟩ := finishCommit_spec hfin
    have hcid := rebase_conversationId (d := tailSeq (loadIntegrityRows db cid) - base)
      (enforceToolPairing_spec hbatch).1
    obtain ⟨hrows, hhead⟩ := (insertChained_adds h₁).untouched (c := c) fun ev hev => (hcid ev hev).trans_ne hne.symm
    refine ⟨(loadIntegrityRows_congr he c).trans hrows, (loadIntegrityHead_congr hh c).trans ?_⟩
    exact (loadIntegrityHead_write_of_ne hne ..).trans hhead

theorem establish_untouched (hne : c ≠ cid) : Untouched c db (establishV2Checkpoint mac (some ring) cid db).2 := by
  refine transaction_snd (P := Untouched c db) ⟨rfl, rfl⟩ fun out db' h => ?_
  split at h
  · obtain ⟨u, -, h⟩ := bind_eq_ok.1 h
    cases h
    exact ⟨rfl, rfl⟩
  · obtain ⟨head, -, h⟩ := bind_eq_ok.1 h
    cases h
    exact ⟨rfl, loadIntegrityHead_write_of_ne hne ..⟩

structure Log where
  db : Db
  ring : KeyRing
  committed : List EventRecord

inductive Call
  | append (ev : EventRecord)
  | commit (cid : String) (baseSeq : Int) (events : List PendingEvent) (projection : Projection) (now : Int)
  | establish (cid : String)
  | add (id : Int) (key : List UInt8)
  | setCurrent (id : Int)
  | rotate (id : Int) (key : List UInt8)

namespace Log

def exec (mac : Mac) (codec : Codec) (l : Log) : Call → Except DbError Unit × Log
  | .append ev =>
    match append mac (some l.ring) ev l.db with
    | (.ok _, db) => (.ok (), { l with db := db, committed := l.committed ++ [ev] })
    | (.error e, db) => (.error e, { l with db := db })
  | .commit cid baseSeq events projection now =>
    match commitTurnWithProjection mac codec (some l.ring) cid baseSeq events projection now l.db with
    | (.ok out, db) => (.ok (), { l with db := db, committed := l.committed ++ out })
    | (.error e, db) => (.error e, { l with db := db })
  | .establish cid =>
    match establishV2Checkpoint mac (some l.ring) cid l.db with
    | (.ok _, db) => (.ok (), { l with db := db })
    | (.error e, db) => (.error e, { l with db := db })
  | .add id key => (.ok (), { l with ring := l.ring.add id key })
  | .setCurrent id =>
    match l.ring.setCurrent id with
    | .ok ring => (.ok (), { l with ring := ring })
    | .error e => (.error e, l)
  | .rotate id key => (.ok (), { l with ring := (l.ring.rotate id key).2 })

def Admits (l : Log) : Call → Prop
  | .add id _ => l.ring.keyFor id = none
  | .rotate id _ => l.ring.keyFor id = none
  | _ => True

def Step (mac : Mac) (codec : Codec) (l : Log) (call : Call) (l' : Log) : Prop :=
  l.Admits call ∧ l' = (l.exec mac codec call).2

def committedTo (l : Log) (c : String) : List EventRecord :=
  l.committed.filter (fun ev => decide (ev.conversationId = c))

/-- **The invariant of a run**, for conversation `c` and the events `old` it started with. -/
structure Sound (mac : Mac) (c : String) (old : List EventRecord) (l : Log) : Prop where
  key : ∃ key, l.ring.currentKey = some key
  intact : Intact mac l.ring l.db c
  committed : eventsOf l.db c = l.committedTo c
  grown : ∃ new, l.committedTo c = old ++ new ∧ ∀ ev ∈ new, 1 ≤ ev.seq

end Log

theorem retains_add {id : Int} (h : ring.keyFor id = none) : (ring.add id key).Retains ring := by
  intro j k hj
  have hne : j ≠ id := by
    rintro rfl
    rw [h] at hj
    cases hj
  exact (Table.get_upsert_of_ne hne key ring.keys).trans hj

variable {l : Log} {call : Call}

theorem ring_exec (hadm : l.Admits call) (hkey : ∃ key, l.ring.currentKey = some key) :
    (l.exec mac codec call).2.ring.Retains l.ring ∧ ∃ key, (l.exec mac codec call).2.ring.currentKey = some key := by
  have hsame : l.ring.Retains l.ring := fun _ _ h => h
  cases call with
  | append ev | commit cid base events projection now => simp only [Log.exec]; split <;> exact ⟨hsame, hkey⟩
  | establish cid => simp only [Log.exec]; split <;> exact ⟨hsame, hkey⟩
  | add id key =>
    obtain ⟨k, hk⟩ := hkey
    exact ⟨retains_add hadm, k, retains_add hadm _ _ hk⟩
  | setCurrent id =>
    simp only [Log.exec, KeyRing.setCurrent]
    cases hid : l.ring.keyFor id with
    | none => exact ⟨hsame, hkey⟩
    | some k => exact ⟨fun _ _ h => h, k, hid⟩
  | rotate id key =>
    have hret : (l.ring.add id key).Retains l.ring := retains_add hadm
    exact ⟨hret, key, Table.get_upsert_self ..⟩

theorem exec_error {e : DbError} (h : (l.exec mac codec call).1 = .error e) : (l.exec mac codec call).2.db = l.db := by
  cases call with
  | append ev | establish cid =>
    simp only [Log.exec] at h ⊢
    split at h
    · cases h
    · rename_i e' db' heq
      have := transaction_error (congrArg Prod.fst heq)
      exact (congrArg Prod.snd heq).symm.trans this
  | commit cid base events projection now =>
    simp only [Log.exec] at h ⊢
    split at h
    · cases h
    · rename_i e' db' heq
      unfold commitTurnWithProjection at heq
      split at heq
      · cases heq
        rfl
      · have := transaction_error (congrArg Prod.fst heq)
        exact (congrArg Prod.snd heq).symm.trans this
  | add id key | rotate id key => rfl
  | setCurrent id =>
    simp only [Log.exec] at h ⊢
    split
    · rfl
    · rfl

theorem Log.Sound.write (hs : l.Sound mac c old) (hcid : ∀ ev ∈ evs, ev.conversationId = cid)
    (hown : cid = c → eventsOf db' c = eventsOf l.db c ++ evs ∧ Numbered (tailSeq (loadIntegrityRows l.db c) + 1) evs ∧
    Intact mac l.ring db' c) (hother : c ≠ cid → Untouched c l.db db') :
    Log.Sound mac c old ⟨db', l.ring, l.committed ++ evs⟩ := by
  obtain ⟨new, hnew, hpos⟩ := hs.grown
  have hfilter : Log.committedTo ⟨db', l.ring, l.committed ++ evs⟩ c =
      l.committedTo c ++ evs.filter (fun ev => decide (ev.conversationId = c)) := List.filter_append ..
  by_cases hc : cid = c
  · obtain ⟨hev, hnum, hint⟩ := hown hc
    rw [List.filter_eq_self.2 fun ev hev => decide_eq_true ((hcid ev hev).trans hc)] at hfilter
    refine ⟨hs.key, hint, by rw [hfilter, ← hs.committed]; exact hev, new ++ evs, ?_, fun ev hev => ?_⟩
    · rw [hfilter, hnew, List.append_assoc]
    · rcases List.mem_append.1 hev with hev | hev
      · exact hpos ev hev
      · have := (mem_numbered hnum ev hev).1
        have := hs.intact.tail_nonneg
        omega
  · have hu := hother (Ne.symm hc)
    rw [List.filter_eq_nil_iff.2 fun ev hev => by simp [hcid ev hev, hc], List.append_nil] at hfilter
    refine ⟨hs.key, hu.intact hs.intact, ?_, new, hfilter.trans hnew, hpos⟩
    rw [hfilter, ← hs.committed]
    exact congrArg (List.map _) hu.1

theorem sound_append (hs : l.Sound mac c old) (ev : EventRecord) :
    Log.Sound mac c old (l.exec mac codec (.append ev)).2 := by
  have herr : ∀ e, (l.exec mac codec (.append ev)).1 = .error e → (l.exec mac codec (.append ev)).2.db = l.db :=
    fun _ => exec_error
  have hother : c ≠ ev.conversationId → Untouched c l.db (append mac (some l.ring) ev l.db).2 := append_untouched
  simp only [Log.exec] at herr ⊢
  cases h : append mac (some l.ring) ev l.db with
  | mk res db' =>
    rw [h] at hother herr
    cases res with
    | error e =>
      obtain rfl := herr e rfl
      exact ⟨hs.key, hs.intact, hs.committed, hs.grown⟩
    | ok u => exact hs.write (by simp) (fun hc => by subst hc; exact append_spec hs.intact h) hother

theorem sound_commit (hs : l.Sound mac c old) (cid : String) (base : Int) (events : List PendingEvent)
    (projection : Projection) (now : Int) :
    Log.Sound mac c old (l.exec mac codec (.commit cid base events projection now)).2 := by
  have herr : ∀ e, (l.exec mac codec (.commit cid base events projection now)).1 = .error e →
      (l.exec mac codec (.commit cid base events projection now)).2.db = l.db :=
    fun _ => exec_error
  have hother : c ≠ cid → Untouched c l.db
      (commitTurnWithProjection mac codec (some l.ring) cid base events projection now l.db).2 := commit_untouched
  simp only [Log.exec] at herr ⊢
  cases h : commitTurnWithProjection mac codec (some l.ring) cid base events projection now l.db with
  | mk res db' =>
    rw [h] at hother herr
    cases res with
    | error e =>
      obtain rfl := herr e rfl
      exact ⟨hs.key, hs.intact, hs.committed, hs.grown⟩
    | ok out =>
      obtain ⟨batch, hbatch, hcommit⟩ := commitTurnWithProjection_ok_iff.1 h
      obtain ⟨head, key, head', db₁, -, -, -, hfin⟩ := commitMaterialized_keyed_iff.1 hcommit
      have hcid : ∀ ev ∈ out, ev.conversationId = cid := by
        rw [(finishCommit_spec hfin).1]
        exact rebase_conversationId (enforceToolPairing_spec hbatch).1
      exact hs.write hcid (fun hc => by subst hc; exact commit_spec hs.intact h) hother

theorem sound_establish (hs : l.Sound mac c old) (cid : String) :
    Log.Sound mac c old (l.exec mac codec (.establish cid)).2 := by
  have herr : ∀ e, (l.exec mac codec (.establish cid)).1 = .error e → (l.exec mac codec (.establish cid)).2.db = l.db :=
    fun _ => exec_error
  have hother : c ≠ cid → Untouched c l.db (establishV2Checkpoint mac (some l.ring) cid l.db).2 := establish_untouched
  obtain ⟨key, hkey⟩ := hs.key
  simp only [Log.exec] at herr ⊢
  cases h : establishV2Checkpoint mac (some l.ring) cid l.db with
  | mk res db' =>
    rw [h] at hother herr
    cases res with
    | error e =>
      obtain rfl := herr e rfl
      exact ⟨hs.key, hs.intact, hs.committed, hs.grown⟩
    | ok b =>
      have hown : cid = c → eventsOf db' c = eventsOf l.db c ++ [] ∧
          Numbered (tailSeq (loadIntegrityRows l.db c) + 1) [] ∧ Intact mac l.ring db' c := by
        rintro rfl
        obtain ⟨he, hint⟩ := establish_spec hkey hs.intact h
        exact ⟨by rw [List.append_nil, eventsOf_congr he], trivial, hint⟩
      have hsound := hs.write (fun _ h => absurd h List.not_mem_nil) hown hother
      rwa [List.append_nil] at hsound

theorem sound_exec (hadm : l.Admits call) (hs : l.Sound mac c old) : Log.Sound mac c old (l.exec mac codec call).2 := by
  obtain ⟨hretains, hkey⟩ := @ring_exec mac codec l call hadm hs.key
  have hint := hs.intact.retains hretains
  cases call with
  | append ev => exact sound_append hs ev
  | commit cid base events projection now => exact sound_commit hs cid base events projection now
  | establish cid => exact sound_establish hs cid
  | add id key | rotate id key => exact ⟨hkey, hint, hs.committed, hs.grown⟩
  | setCurrent id =>
    have hdb : (l.exec mac codec (.setCurrent id)).2.db = l.db ∧
        (l.exec mac codec (.setCurrent id)).2.committed = l.committed := by
      simp only [Log.exec]
      split <;> exact ⟨rfl, rfl⟩
    have hcom : (l.exec mac codec (.setCurrent id)).2.committedTo c = l.committedTo c := by
      rw [Log.committedTo, hdb.2]
      rfl
    refine ⟨hkey, by rw [hdb.1]; exact hint, ?_, by rw [hcom]; exact hs.grown⟩
    rw [hdb.1, hcom]
    exact hs.committed

theorem sound_run {l l' : Log} {calls : List Call} (hrun : Run (Log.Step mac codec) l calls l')
    (hs : l.Sound mac c old) : l'.Sound mac c old :=
  run_invariant hrun hs fun _ _ _ h hstep => hstep.2 ▸ sound_exec hstep.1 h

/-- **Where a run starts**: a ring with a current key, and legacy rows it has not signed yet. -/
structure Log.Start (mac : Mac) (c : String) (l : Log) : Prop where
  key : ∃ key, l.ring.currentKey = some key
  legacy : LegacyOnly mac l.ring (loadIntegrityRows l.db c)
  headless : loadIntegrityHead l.db c = none
  committed : l.committedTo c = eventsOf l.db c

theorem Log.Start.sound (h : l.Start mac c) : l.Sound mac c (eventsOf l.db c) := by
  refine ⟨h.key, ?_, h.committed.symm, [], by rw [h.committed, List.append_nil], by simp⟩
  unfold Intact
  rw [h.headless]
  exact h.legacy

/-! ## Chain completeness -/

def Contiguous (rows : List IntegrityRow) : Option IntegrityHead → Prop
  | none => rows.filter IntegrityRow.isChained = []
  | some head =>
    Numbered head.chainStartSeq ((rows.filter IntegrityRow.isChained).map IntegrityRow.event) ∧
      head.headSeq + 1 = head.chainStartSeq + (rows.filter IntegrityRow.isChained).length

theorem Intact.contiguous (h : Intact mac ring db c) :
    Contiguous (loadIntegrityRows db c) (loadIntegrityHead db c) := by
  unfold Intact at h
  unfold Contiguous
  cases hh : loadIntegrityHead db c with
  | none =>
    rw [hh] at h
    exact List.filter_eq_nil_iff.2 fun row hrow => not_chained_of_legacy (h.version row hrow)
  | some head =>
    rw [hh] at h
    obtain ⟨tail, -, ⟨key, -, hrun⟩, -⟩ := h.anchored
    exact numbered_of_run hrun

theorem Intact.replaySince (h : Intact mac ring db c) (k : Int) :
    replaySince mac (some ring) db c k = .ok ((eventsOf db c).filter (fun ev => decide (k < ev.seq))) := by
  unfold Execlaw.replaySince
  refine bind_eq_ok.2 ⟨(), h.verified, ?_⟩
  rw [eventsOf, List.filter_map]
  rfl

/-- No stored sequence is `i64::MAX`, whose successor overflows. -/
def Log.InRange (l : Log) : Prop := ∀ row ∈ l.db.events, I64 row.seq ∧ I64 (row.seq + 1)

/-- **The call's arithmetic stays in an `i64`**: the sequences of the rows that are there, and those a commit counts
through, at most two for each event, from its base and behind the last row. -/
def Log.Counts (l : Log) (call : Call) : Prop :=
  l.InRange ∧ match call with
    | .append ev => I64 ev.seq
    | .commit cid base events _ _ =>
      let last := tailSeq (loadIntegrityRows l.db cid)
      I64 base ∧ I64 (last - base) ∧ I64 (base + 2 * events.length + 1) ∧ I64 (last + 2 * events.length)
    | _ => True

/-- A step whose arithmetic, with that of a read behind it, stays in an `i64`. -/
def Log.CountedStep (mac : Mac) (codec : Codec) (l : Log) (call : Call) (l' : Log) : Prop :=
  l.Counts call ∧ l.Step mac codec call l' ∧ l'.InRange

/-- **Chain completeness.**  From a conversation of legacy rows, whose last sequence is not negative, under a ring with a
current key, every run of appends, commits, checkpoints and key changes that stays below `i64::MAX` reaches a log that
verifies, without a gap in its v2 rows, that replays what was committed behind any sequence; and a call that fails there
leaves the tables as they were. -/
theorem run_chain_complete {l l' : Log} {calls : List Call} (hstart : l.Start mac c)
    (hrun : Run (Log.CountedStep mac codec) l calls l') :
    verifyIntegrity mac (some l'.ring) c (loadIntegrityRows l'.db c) (loadIntegrityHead l'.db c) = .ok () ∧
      Contiguous (loadIntegrityRows l'.db c) (loadIntegrityHead l'.db c) ∧
      (∀ k, replaySince mac (some l'.ring) l'.db c k =
        .ok ((l'.committedTo c).filter (fun ev => decide (k < ev.seq)))) ∧
      ∀ call e, l'.Counts call → (l'.exec mac codec call).1 = .error e → (l'.exec mac codec call).2.db = l'.db := by
  have hs := sound_run (run_mono (fun _ _ _ h => h.2.1) hrun) hstart.sound
  refine ⟨hs.intact.verified, hs.intact.contiguous, fun k => ?_, fun call e _ => exec_error⟩
  rw [hs.intact.replaySince, hs.committed]

def flatMac : Mac := fun _ _ => ⟨List.replicate 32 0, Tag.length_zeros⟩

def noCodec : Codec := ⟨fun _ => .error "", fun _ => .error "", fun _ _ => .ok []⟩

def sampleEvent (seq : Int) : EventRecord :=
  { conversationId := "c", seq := seq, kind := .userMsg, payload := [7], committedAt := 0, actor := none }

/-- One legacy row at `seq`, and a ring that has signed nothing yet. -/
def legacyLog (seq : Int) : Log :=
  { db := { events := [plainRow (sampleEvent seq)] }, ring := KeyRing.single 1 [1], committed := [sampleEvent seq] }

theorem load_legacyLog (seq : Int) (c : String) : loadIntegrityRows (legacyLog seq).db c =
    if "c" = c then [(plainRow (sampleEvent seq)).toIntegrityRow] else [] := by
  by_cases h : "c" = c
  · subst h
    rfl
  · simp [loadIntegrityRows, legacyLog, plainRow, sampleEvent, h]

theorem start_legacyLog (seq : Int) (h : 0 ≤ seq) (c : String) : (legacyLog seq).Start flatMac c := by
  refine ⟨⟨[1], rfl⟩, ?_, rfl, ?_⟩
  · rw [load_legacyLog]
    split
    · refine ⟨List.pairwise_singleton _ _, by simp [EventRow.toIntegrityRow, plainRow, IntegrityRow.isLegacy], ?_, h⟩
      intro row hrow b hb
      rw [List.mem_singleton.1 hrow] at hb
      cases hb
    · exact ⟨List.Pairwise.nil, by simp, by simp, le_rfl⟩
  · rw [eventsOf, load_legacyLog]
    by_cases hc : "c" = c
    · subst hc
      rfl
    · simp [Log.committedTo, legacyLog, sampleEvent, hc]

theorem run_chain_complete_sample :
    ∃ l', Run (Log.CountedStep flatMac noCodec) (legacyLog 1)
        [.append (sampleEvent 2), .rotate 2 [2], .establish "c"] l' ∧
      verifyIntegrity flatMac (some l'.ring) "c" (loadIntegrityRows l'.db "c") (loadIntegrityHead l'.db "c") = .ok () ∧
      Contiguous (loadIntegrityRows l'.db "c") (loadIntegrityHead l'.db "c") := by
  have hone : (legacyLog 1).InRange := fun row hrow => by
    rw [List.mem_singleton.1 hrow]
    decide
  have htwo : Log.InRange ((legacyLog 1).exec flatMac noCodec (.append (sampleEvent 2))).2 := fun row hrow => by
    rcases List.mem_cons.1 hrow with rfl | hrow
    · exact (by decide : I64 2 ∧ I64 3)
    · exact hone row hrow
  have hrun : Run (Log.CountedStep flatMac noCodec) (legacyLog 1)
      [.append (sampleEvent 2), .rotate 2 [2], .establish "c"] _ :=
    ⟨_, ⟨⟨hone, (by decide : I64 2)⟩, ⟨trivial, rfl⟩, htwo⟩, _, ⟨⟨htwo, trivial⟩, ⟨rfl, rfl⟩, htwo⟩,
      _, ⟨⟨htwo, trivial⟩, ⟨trivial, rfl⟩, htwo⟩, rfl⟩
  obtain ⟨hok, hcont, -⟩ := run_chain_complete (start_legacyLog 1 (by decide) "c") hrun
  exact ⟨_, hrun, hok, hcont⟩

/-- A last legacy sequence of -1 puts the chain's start at 0, and the verifier refuses a start below 1. -/
theorem establish_negative_legacy :
    Ascending (loadIntegrityRows (legacyLog (-1)).db "c") ∧
      (∀ row ∈ loadIntegrityRows (legacyLog (-1)).db "c", row.isLegacy ∧ row.tag = none) ∧
      loadIntegrityHead (legacyLog (-1)).db "c" = none ∧
      ∃ l', Run (Log.Step flatMac noCodec) (legacyLog (-1)) [.establish "c"] l' ∧
        verifyIntegrity flatMac (some l'.ring) "c" (loadIntegrityRows l'.db "c") (loadIntegrityHead l'.db "c") ≠
          .ok () := by
  refine ⟨List.pairwise_singleton _ _, by decide, rfl, _, ⟨_, ⟨trivial, rfl⟩, rfl⟩, fun h => ?_⟩
  obtain ⟨-, tail, hanch⟩ := verifyIntegrity_head.1 h
  exact absurd hanch.start (by decide)

end Execlaw
