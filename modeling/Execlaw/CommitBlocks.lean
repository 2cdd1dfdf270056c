import Execlaw.EventHistory
/-!
# CommitBlocks — concurrent commits

Any number of callers read `lastSeq` of one conversation and later commit a turn numbered from what they read, keyed or
not; the connection mutex puts the transactions one after another.  Whatever the interleaving, the log afterwards is
the log before followed by the committed blocks, one for each successful call, numbered without a gap.
-/
namespace Execlaw

open Steps

variable {mac : Mac} {codec : Codec} {cid c : String} {db db' : Db}

/-! ## The sequence a caller reads -/

theorem tailSeq_eq (rows : List IntegrityRow) :
    tailSeq rows = (((rows.map IntegrityRow.event).getLast?).map EventRecord.seq).getD 0 := by
  unfold tailSeq
  rw [List.getLast?_map, Option.map_map]
  rfl

theorem lastSeq_eq_tailSeq (db : Db) (cid : String) : lastSeq db cid = tailSeq (loadIntegrityRows db cid) := by
  have hmem : ∀ s, s ∈ (db.events.filter (fun r => decide (r.conversationId = cid))).map EventRow.seq ↔
      ∃ row ∈ loadIntegrityRows db cid, row.event.seq = s := by
    intro s
    simp only [List.mem_map, List.mem_filter, decide_eq_true_eq, mem_loadIntegrityRows]
    constructor
    · rintro ⟨r, ⟨hr, hc⟩, rfl⟩
      exact ⟨_, ⟨r, hr, hc, rfl⟩, rfl⟩
    · rintro ⟨_, ⟨r, hr, hc, rfl⟩, rfl⟩
      exact ⟨r, ⟨hr, hc⟩, rfl⟩
  unfold lastSeq
  generalize (db.events.filter (fun r => decide (r.conversationId = cid))).map EventRow.seq = seqs at hmem ⊢
  rcases List.eq_nil_or_concat (loadIntegrityRows db cid) with hnil | ⟨init, last, hsnoc⟩
  · rw [hnil] at hmem ⊢
    have : seqs = [] := List.eq_nil_iff_forall_not_mem.2 fun s hs => by simpa using (hmem s).1 hs
    rw [this]
    rfl
  · have hmax : seqs.max? = some (tailSeq (loadIntegrityRows db cid)) := by
      refine List.max?_eq_some_iff.2 ⟨(hmem _).2 ⟨last, by simp [hsnoc], ?_⟩, fun s hs => ?_⟩
      · rw [hsnoc, List.concat_eq_append, tailSeq_snoc]
      · obtain ⟨row, hrow, rfl⟩ := (hmem s).1 hs
        exact seq_le_tailSeq hrow
    rw [hmax]
    rfl

theorem numbered_getLast : ∀ {evs : List EventRecord} {n : Int}, Numbered n evs → evs ≠ [] →
    (evs.getLast?).map EventRecord.seq = some (n + evs.length - 1)
  | [], _, _, hne => absurd rfl hne
  | [ev], n, h, _ => by
    simp only [List.getLast?_singleton, Option.map_some, h.1, List.length_singleton]
    congr 1
    omega
  | ev :: e :: evs, n, h, _ => by
    rw [List.getLast?_cons_cons, numbered_getLast h.2 (by simp)]
    simp only [List.length_cons]
    congr 1
    omega

theorem tailSeq_of_block {rows rows' : List IntegrityRow} {out : List EventRecord}
    (hload : rows'.map IntegrityRow.event = rows.map IntegrityRow.event ++ out)
    (hnum : Numbered (tailSeq rows + 1) out) : tailSeq rows' = tailSeq rows + out.length := by
  rw [tailSeq_eq rows', hload]
  by_cases hne : out = []
  · subst hne
    simp [tailSeq_eq]
  · rw [List.getLast?_append_of_ne_nil _ hne, numbered_getLast hnum hne]
    simp only [Option.getD_some]
    omega

/-! ## One commit, keyed or not -/

variable {projection : Projection} {ring : Option KeyRing}

theorem commitMaterialized_adds {base : Int} {batch out : List EventRecord}
    (h : commitMaterialized mac codec ring cid base projection batch db = .ok (out, db')) :
    out = rebase batch (tailSeq (loadIntegrityRows db cid) - base) ∧
      ∃ db₁, Adds out db db₁ ∧ db'.events = db₁.events := by
  cases ring with
  | some ring =>
    obtain ⟨head, key, head', db₁, -, -, h₁, hfin⟩ := commitMaterialized_keyed_iff.1 h
    obtain ⟨rfl, he, -⟩ := finishCommit_spec hfin
    exact ⟨rfl, db₁, insertChained_adds h₁, he⟩
  | none =>
    unfold commitMaterialized at h
    dsimp only at h
    split at h
    · cases h
    · obtain ⟨db₁, h₁, hfin⟩ := bind_eq_ok.1 h
      obtain ⟨rfl, he, -⟩ := finishCommit_spec hfin
      exact ⟨rfl, db₁, insertPlain_adds h₁, he⟩

variable {events : List PendingEvent} {base now : Int}

theorem commit_block {out : List EventRecord} (hbase : base ≤ tailSeq (loadIntegrityRows db cid))
    (h : commitTurnWithProjection mac codec ring cid base events projection now db = (.ok out, db')) :
    eventsOf db' cid = eventsOf db cid ++ out ∧ Numbered (tailSeq (loadIntegrityRows db cid) + 1) out := by
  obtain ⟨batch, hbatch, h⟩ := commitTurnWithProjection_ok_iff.1 h
  obtain ⟨rfl, db₁, hadds, he⟩ := commitMaterialized_adds h
  obtain ⟨hcid, hnum⟩ := enforceToolPairing_spec hbatch
  have hnum' := rebase_numbered hnum hbase
  refine ⟨?_, hnum'⟩
  rw [eventsOf_congr he]
  exact hadds.load (rebase_conversationId hcid) hnum' (Int.lt_add_one_of_le le_rfl)

/-! ## What a block holds -/

def Carries (pending : PendingEvent) (ev : EventRecord) : Prop :=
  ev.kind = pending.kind ∧ ev.payload = pending.payload ∧ ev.actor = pending.actor

/-- **A batch and its block**: every pending event in order, a tool use perhaps with a synthesized result behind it. -/
inductive Expands : List PendingEvent → List EventRecord → Prop
  | nil : Expands [] []
  | plain {p : PendingEvent} {ev : EventRecord} {ps : List PendingEvent} {evs : List EventRecord} :
      Carries p ev → Expands ps evs → Expands (p :: ps) (ev :: evs)
  | answered {p : PendingEvent} {ev result : EventRecord} {ps : List PendingEvent} {evs : List EventRecord} :
      Carries p ev → p.kind = .toolUse → result.kind = .toolResult → result.actor = some "system" → Expands ps evs →
      Expands (p :: ps) (ev :: result :: evs)

theorem pairEvents_expands {results : List UInt32} {now : Int} : ∀ {ps : List PendingEvent} {n : Int}
    {batch : List EventRecord}, pairEvents codec cid results now ps n = .ok batch → Expands ps batch
  | [], _, _, h => by cases h; exact .nil
  | p :: ps, n, batch, h => by
    rw [pairEvents] at h
    split at h
    · rename_i hkind
      split at h
      · cases h
      · split at h
        · obtain ⟨rest, hrest, h⟩ := bind_eq_ok.1 h
          cases h
          exact .plain ⟨rfl, rfl, rfl⟩ (pairEvents_expands hrest)
        · obtain ⟨synthetic, hsyn, h⟩ := bind_eq_ok.1 h
          obtain ⟨rest, hrest, h⟩ := bind_eq_ok.1 h
          cases h
          unfold syntheticResult at hsyn
          dsimp only at hsyn
          split at hsyn
          · cases hsyn
          · cases hsyn
            exact .answered ⟨rfl, rfl, rfl⟩ hkind rfl rfl (pairEvents_expands hrest)
    · obtain ⟨rest, hrest, h⟩ := bind_eq_ok.1 h
      cases h
      exact .plain ⟨rfl, rfl, rfl⟩ (pairEvents_expands hrest)

theorem Expands.shift {d : Int} {ps : List PendingEvent} {evs : List EventRecord} (h : Expands ps evs) :
    Expands ps (evs.map (fun ev => { ev with seq := ev.seq + d })) := by
  induction h with
  | nil => exact .nil
  | plain hp _ ih => exact .plain hp ih
  | answered hp hk hr ha _ ih => exact .answered hp hk hr ha ih

theorem commit_expands {out : List EventRecord}
    (h : commitTurnWithProjection mac codec ring cid base events projection now db = (.ok out, db')) :
    Expands events out := by
  obtain ⟨batch, hbatch, h⟩ := commitTurnWithProjection_ok_iff.1 h
  obtain ⟨rfl, -⟩ := commitMaterialized_adds h
  obtain ⟨results, -, hpair⟩ := bind_eq_ok.1 hbatch
  have hexp := pairEvents_expands hpair
  unfold rebase
  split
  · exact hexp.shift
  · exact hexp

/-! ## Runs of callers -/

structure Receipt where
  events : List PendingEvent
  out : List EventRecord

structure Callers where
  db : Db
  seen : List Int := []
  receipts : List Receipt := []

def Callers.blocks (s : Callers) : List EventRecord := (s.receipts.map Receipt.out).flatten

inductive CallerAct
  | read
  | commit (ring : Option KeyRing) (base : Int) (events : List PendingEvent) (projection : Projection) (now : Int)

/-- **One turn of some caller**: a read of the last sequence, or a commit from a sequence read earlier. -/
inductive Callers.Step (mac : Mac) (codec : Codec) (c : String) : Callers → CallerAct → Callers → Prop
  | read (s : Callers) : Step mac codec c s .read { s with seen := s.seen ++ [lastSeq s.db c] }
  | committed {s : Callers} {ring : Option KeyRing} {base : Int} {events : List PendingEvent} {projection : Projection}
      {now : Int} {out : List EventRecord} {db' : Db} :
      base ∈ s.seen → commitTurnWithProjection mac codec ring c base events projection now s.db = (.ok out, db') →
      Step mac codec c s (.commit ring base events projection now)
        { s with db := db', receipts := s.receipts ++ [⟨events, out⟩] }
  | refused {s : Callers} {ring : Option KeyRing} {base : Int} {events : List PendingEvent} {projection : Projection}
      {now : Int} {e : DbError} {db' : Db} :
      base ∈ s.seen → commitTurnWithProjection mac codec ring c base events projection now s.db = (.error e, db') →
      Step mac codec c s (.commit ring base events projection now) { s with db := db' }

/-- **The invariant of the callers**, over the log they started from. -/
structure Callers.Kept (c : String) (db₀ : Db) (s : Callers) : Prop where
  log : eventsOf s.db c = eventsOf db₀ c ++ s.blocks
  numbered : Numbered (lastSeq db₀ c + 1) s.blocks
  tail : tailSeq (loadIntegrityRows s.db c) = lastSeq db₀ c + s.blocks.length
  seen : ∀ base ∈ s.seen, base ≤ tailSeq (loadIntegrityRows s.db c)
  batches : ∀ r ∈ s.receipts, Expands r.events r.out

theorem commit_error {e : DbError}
    (h : commitTurnWithProjection mac codec ring c base events projection now db = (.error e, db')) : db' = db := by
  unfold commitTurnWithProjection at h
  split at h
  · cases h
    rfl
  · have := transaction_error (congrArg Prod.fst h)
    rwa [h] at this

theorem kept_step {db₀ : Db} {s s' : Callers} {act : CallerAct} (hk : s.Kept c db₀)
    (h : Callers.Step mac codec c s act s') : s'.Kept c db₀ := by
  cases h with
  | read =>
    refine ⟨hk.log, hk.numbered, hk.tail, fun base hb => ?_, hk.batches⟩
    rcases List.mem_append.1 hb with hb | hb
    · exact hk.seen base hb
    · rw [List.mem_singleton.1 hb, lastSeq_eq_tailSeq]
  | @committed ring base events projection now out db' hbase hcommit =>
    obtain ⟨hlog, hnum⟩ := commit_block (hk.seen base hbase) hcommit
    have htail : tailSeq (loadIntegrityRows db' c) = tailSeq (loadIntegrityRows s.db c) + out.length :=
      tailSeq_of_block hlog hnum
    have hblocks : Callers.blocks { s with db := db', receipts := s.receipts ++ [⟨events, out⟩] } =
        s.blocks ++ out := by
      simp [Callers.blocks]
    refine ⟨?_, ?_, ?_, fun b hb => ?_, fun r hr => ?_⟩
    · rw [hblocks, ← List.append_assoc, ← hk.log]
      exact hlog
    · rw [hblocks, numbered_append]
      refine ⟨hk.numbered, ?_⟩
      rwa [hk.tail, show lastSeq db₀ c + (s.blocks.length : Int) + 1 = lastSeq db₀ c + 1 + s.blocks.length by omega]
        at hnum
    · rw [hblocks, List.length_append]
      rw [htail, hk.tail]
      omega
    · have := hk.seen b hb
      show b ≤ tailSeq (loadIntegrityRows db' c)
      omega
    · rcases List.mem_append.1 hr with hr | hr
      · exact hk.batches r hr
      · rw [List.mem_singleton.1 hr]
        exact commit_expands hcommit
  | refused hbase hcommit =>
    obtain rfl := commit_error hcommit
    exact ⟨hk.log, hk.numbered, hk.tail, hk.seen, hk.batches⟩

theorem kept_start (c : String) (db : Db) : Callers.Kept c db { db := db } :=
  ⟨by simp [Callers.blocks], trivial, by simp [Callers.blocks, lastSeq_eq_tailSeq], by simp, by simp⟩

/-- **Concurrent commits lose nothing.**  After any interleaving of reads and commits the log is the log before and
then one block for each successful call, in the order of the calls: the records the call returned, its batch in order
with the synthesized results.  The blocks together are numbered without a gap from the sequence after the last one, so
no sequence is used twice. -/
theorem run_commits_lose_nothing {db : Db} {s : Callers} {acts : List CallerAct}
    (hrun : Run (Callers.Step mac codec c) { db := db } acts s) :
    eventsOf s.db c = eventsOf db c ++ (s.receipts.map Receipt.out).flatten ∧
      Numbered (lastSeq db c + 1) (s.receipts.map Receipt.out).flatten ∧
      (∀ ev ∈ eventsOf db c, ev.seq ≤ lastSeq db c) ∧
      ∀ r ∈ s.receipts, Expands r.events r.out := by
  have hk : s.Kept c db := run_invariant hrun (kept_start c db) fun _ _ _ h hstep => kept_step h hstep
  refine ⟨hk.log, hk.numbered, fun ev hev => ?_, hk.batches⟩
  obtain ⟨row, hrow, rfl⟩ := List.mem_map.1 hev
  rw [lastSeq_eq_tailSeq]
  exact seq_le_tailSeq hrow

/-- Two callers read the same last sequence; one commits without a key, the other with one. -/
theorem run_commits_lose_nothing_sample :
    ∃ s, Run (Callers.Step flatMac noCodec "c") { db := {} } [.read, .read,
        .commit none 0 [⟨.userMsg, [1], none⟩] Projection.none 5,
        .commit (some (KeyRing.single 1 [1])) 0 [⟨.userMsg, [2], none⟩] Projection.none 6] s ∧
      s.receipts.length = 2 ∧ eventsOf s.db "c" = eventsOf {} "c" ++ (s.receipts.map Receipt.out).flatten := by
  have hrun : Run (Callers.Step flatMac noCodec "c") { db := {} } [.read, .read,
      .commit none 0 [⟨.userMsg, [1], none⟩] Projection.none 5,
      .commit (some (KeyRing.single 1 [1])) 0 [⟨.userMsg, [2], none⟩] Projection.none 6] _ :=
    ⟨_, .read _, _, .read _, _, .committed (by decide) rfl, _, .committed (by decide) rfl, rfl⟩
  exact ⟨_, hrun, rfl, (run_commits_lose_nothing hrun).1⟩

end Execlaw
