import Execlaw.EventHistory
import Execlaw.ToolPairing
import Mathlib
/-!
# StagedSends — what a committed turn releases (`core/src/events.rs`, `server/src/transport_outbox.rs`)

A transport send a tool stages waits in the outbox at `stagedAt`, under the key of its conversation, source event and
tool ordinal.  `commitTurn` releases the rows whose ordinal has both a use and a result in the batch it stores, and it
stores the batch after pairing: the cancellation written behind an unanswered use counts as its result.
-/
namespace Execlaw

open Wire Steps

variable {mac : Mac} {ring : Option KeyRing} {codec : Codec} {cid : String} {base now : Int} {db db' : Db}
  {events : List PendingEvent} {out : List EventRecord}

/-! ## Keys of staged sends -/

def mintKey (conversationId : String) (turnSeq : Int) (ordinal : UInt32) : String :=
  s!"{conversationId}:{turnSeq}:{ordinal}"

theorem colon_notMem_nat (n : Nat) : ':' ∉ n.repr.toList := by
  intro h
  rw [Nat.toList_repr] at h
  have := Nat.isDigit_of_mem_toDigits (by decide) (by decide) h
  revert this
  decide

theorem colon_notMem_int (x : Int) : ':' ∉ x.repr.toList := by
  rw [Int.repr_eq_if]
  by_cases h : 0 ≤ x
  · rw [if_pos h]
    exact colon_notMem_nat _
  · rw [if_neg h, String.toList_append, List.mem_append]
    rintro (h | h)
    · revert h
      decide
    · exact colon_notMem_nat _ h

theorem toList_mintKey (c : String) (s : Int) (o : UInt32) :
    (mintKey c s o).toList = (c.toList ++ ':' :: s.repr.toList) ++ ':' :: o.toNat.repr.toList := by
  simp [mintKey, toString]

theorem mintKey_inj {c c' : String} {s s' : Int} {o o' : UInt32} (h : mintKey c s o = mintKey c' s' o') :
    c = c' ∧ s = s' ∧ o = o' := by
  have hlist := congrArg String.toList h
  rw [toList_mintKey, toList_mintKey] at hlist
  obtain ⟨hlist, ho⟩ := cut_last (colon_notMem_nat _) (colon_notMem_nat _) hlist
  obtain ⟨hc, hs⟩ := cut_last (colon_notMem_int _) (colon_notMem_int _) hlist
  exact ⟨String.toList_inj.1 hc, Int.repr_inj.1 (String.toList_inj.1 hs),
    UInt32.toNat_inj.1 (Nat.repr_inj.1 (String.toList_inj.1 ho))⟩

/-! ## The release -/

def OutboxRec.Staged (r : OutboxRec) : Prop :=
  (r.effectKind = "transport.send" ∨ r.effectKind = "transport.send_attachments") ∧ r.status = .pending ∧
    r.nextAttemptAt = some stagedAt

instance (r : OutboxRec) : Decidable r.Staged := inferInstanceAs (Decidable (_ ∧ _))

def OutboxRec.released (r : OutboxRec) : OutboxRec := { r with nextAttemptAt := none }

theorem not_staged_released (r : OutboxRec) : ¬ r.released.Staged := by simp [OutboxRec.Staged, OutboxRec.released]

def releaseKeys (keys : List String) (rows : List OutboxRec) : List OutboxRec :=
  rows.map (fun r => if r.idempotencyKey ∈ keys ∧ r.Staged then r.released else r)

theorem releaseOne_outbox (key : String) (db : Db) : (releaseOne key db).outbox = releaseKeys [key] db.outbox := by
  unfold releaseOne releaseKeys OutboxRec.Staged
  simp only [List.mem_singleton]
  rfl

theorem releaseKeys_cons (key : String) (keys : List String) (rows : List OutboxRec) :
    releaseKeys keys (releaseKeys [key] rows) = releaseKeys (key :: keys) rows := by
  unfold releaseKeys
  rw [List.map_map]
  refine List.map_congr_left fun r _ => ?_
  by_cases hs : r.Staged
  · by_cases hk : r.idempotencyKey = key
    · simp [hs, hk, not_staged_released]
    · simp [hs, hk]
  · simp [hs]

theorem foldl_releaseOne_outbox (keyOf : UInt32 → String) : ∀ (ordinals : List UInt32) (db : Db),
    (ordinals.foldl (fun db o => releaseOne (keyOf o) db) db).outbox = releaseKeys (ordinals.map keyOf) db.outbox
  | [], db => by simp [releaseKeys]
  | o :: ordinals, db => by
    rw [List.foldl_cons, foldl_releaseOne_outbox keyOf ordinals, releaseOne_outbox, releaseKeys_cons]
    rfl

variable {o : UInt32}

theorem mem_decodedOrdinals_use : o ∈ decodedOrdinals .toolUse codec.decodeToolUse out ↔
    ∃ e ∈ out.map EventRecord.pending, e.useOrdinal codec = some o := by
  simp only [decodedOrdinals, List.mem_filterMap, List.mem_filter, decide_eq_true_eq, List.mem_map,
    exists_exists_and_eq_and, PendingEvent.useOrdinal, EventRecord.pending, and_assoc]
  refine exists_congr fun ev => and_congr_right fun _ => ?_
  by_cases hk : ev.kind = .toolUse
  · simp [hk]
  · simp [hk]

theorem mem_decodedOrdinals_result : o ∈ decodedOrdinals .toolResult codec.decodeToolResult out ↔
    ∃ e ∈ out.map EventRecord.pending, e.resultOrdinal codec = some o := by
  simp only [decodedOrdinals, List.mem_filterMap, List.mem_filter, decide_eq_true_eq, List.mem_map,
    exists_exists_and_eq_and, PendingEvent.resultOrdinal, EventRecord.pending, and_assoc]
  refine exists_congr fun ev => and_congr_right fun _ => ?_
  by_cases hk : ev.kind = .toolResult
  · simp [hk]
  · simp [hk]

def Both (codec : Codec) (events : List PendingEvent) (o : UInt32) : Prop :=
  (∃ e ∈ events, e.useOrdinal codec = some o) ∧ ∃ e ∈ events, e.resultOrdinal codec = some o

theorem mem_answered : o ∈ (decodedOrdinals .toolUse codec.decodeToolUse out).filter (fun o =>
    (decodedOrdinals .toolResult codec.decodeToolResult out).contains o) ↔
      Both codec (out.map EventRecord.pending) o := by
  rw [List.mem_filter, List.contains_iff_mem, mem_decodedOrdinals_use, mem_decodedOrdinals_result, Both]

theorem release_outbox (out : List EventRecord) (db : Db) : ∃ keys,
    (releaseStagedTransportEffects codec cid out db).outbox = releaseKeys keys db.outbox ∧
      ∀ key, key ∈ keys ↔ ∃ s o, (activeRunSource db cid).or (latestUserSeq db cid) = some s ∧
        Both codec (out.map EventRecord.pending) o ∧ key = mintKey cid s o := by
  unfold releaseStagedTransportEffects
  cases (activeRunSource db cid).or (latestUserSeq db cid) with
  | none => exact ⟨[], by simp [releaseKeys], by simp⟩
  | some s =>
    refine ⟨_, foldl_releaseOne_outbox (mintKey cid s) _ db, fun key => ?_⟩
    rw [List.mem_map]
    constructor
    · rintro ⟨o, ho, rfl⟩
      exact ⟨s, o, rfl, mem_answered.1 ho, rfl⟩
    · rintro ⟨s', o, hs, ho, rfl⟩
      cases hs
      exact ⟨o, mem_answered.2 ho, rfl⟩

/-! ## The source event of a turn -/

def unanswered (codec : Codec) (events : List PendingEvent) (ev : PendingEvent) : Bool :=
  match ev.useOrdinal codec with
  | none => false
  | some o => !(events.any (fun r => decide (r.resultOrdinal codec = some o)))

/-- The sequences the user messages of a batch are committed at, from `n` on. -/
def userSeqs (codec : Codec) (batch : List PendingEvent) : List PendingEvent → Int → List Int
  | [], _ => []
  | ev :: events, n =>
    let rest := userSeqs codec batch events (n + if unanswered codec batch ev then 2 else 1)
    if ev.kind = .userMsg then n :: rest else rest

def storedUserSeqs (db : Db) (cid : String) : List Int :=
  (db.events.filter (fun r => decide (r.conversationId = cid ∧ r.kind = "user_msg"))).map EventRow.seq

def turnSource (codec : Codec) (db : Db) (cid : String) (base : Int) (events : List PendingEvent) : Option Int :=
  (activeRunSource db cid).or
    (userSeqs codec events events (max base (tailSeq (loadIntegrityRows db cid)) + 1) ++ storedUserSeqs db cid).max?

theorem max?_congr {l l' : List Int} (h : ∀ x, x ∈ l ↔ x ∈ l') : l.max? = l'.max? := by
  refine Option.ext fun x => ?_
  simp only [List.max?_eq_some_iff, h]

variable {batch : List PendingEvent} {results : List UInt32}

theorem unanswered_iff (hresults : resultOrdinals codec batch = .ok results) {ev : PendingEvent} :
    unanswered codec batch ev = true ↔ ∃ o, Lacks codec results ev o := by
  unfold unanswered Lacks
  cases ev.useOrdinal codec with
  | none => simp
  | some o => simp [mem_resultOrdinals hresults o]

theorem userSeqs_shift (batch : List PendingEvent) (d : Int) : ∀ (events : List PendingEvent) (n : Int),
    userSeqs codec batch events (n + d) = (userSeqs codec batch events n).map (· + d)
  | [], _ => rfl
  | ev :: events, n => by
    have hrest := userSeqs_shift batch d events (n + if unanswered codec batch ev then 2 else 1)
    rw [show n + (if unanswered codec batch ev then 2 else 1) + d =
      n + d + (if unanswered codec batch ev then 2 else 1) by omega] at hrest
    simp only [userSeqs, hrest]
    by_cases hk : ev.kind = .userMsg
    · simp [hk]
    · simp [hk]

theorem mem_userSeqs (hresults : resultOrdinals codec batch = .ok results) : ∀ {events : List PendingEvent} {n : Int}
    {out : List EventRecord}, pairEvents codec cid results now events n = .ok out → ∀ x,
      x ∈ userSeqs codec batch events n ↔ ∃ ev ∈ out, ev.kind = .userMsg ∧ ev.seq = x
  | [], _, _, h, x => by cases h; simp [userSeqs]
  | ev :: events, n, out, h, x => by
    have hhead : ∀ rest : List Int, (x ∈ if ev.kind = .userMsg then n :: rest else rest) ↔
        (ev.kind = .userMsg ∧ n = x) ∨ x ∈ rest := by
      intro rest
      by_cases hk : ev.kind = .userMsg
      · simp [hk, eq_comm]
      · simp [hk]
    rw [userSeqs, hhead]
    rcases pairEvents_cons h with ⟨rest, hl, hrest, rfl⟩ | ⟨o, synthetic, rest, hl, hsyn, hrest, rfl⟩
    · rw [if_neg (by simpa [unanswered_iff hresults] using hl), mem_userSeqs hresults hrest x]
      simp [stamp]
    · obtain ⟨payload, -, rfl⟩ := syntheticResult_ok hsyn
      rw [if_pos ((unanswered_iff hresults).2 ⟨o, (hl o).2 rfl⟩), mem_userSeqs hresults hrest x]
      simp [stamp]

theorem mem_userSeqs_rebase {batch : List EventRecord} (h : enforceToolPairing codec cid base events now = .ok batch)
    (tail : Int) (x : Int) : x ∈ userSeqs codec events events (max base tail + 1) ↔
      ∃ ev ∈ rebase batch (tail - base), ev.kind = .userMsg ∧ ev.seq = x := by
  obtain ⟨results, hresults, h⟩ := bind_eq_ok.1 h
  unfold rebase
  by_cases hd : 0 < tail - base
  · rw [if_pos hd, show max base tail + 1 = base + 1 + (tail - base) by omega, userSeqs_shift, List.mem_map]
    simp only [mem_userSeqs hresults h, List.mem_map, exists_exists_and_eq_and]
    constructor
    · rintro ⟨_, ⟨ev, hev, hk, rfl⟩, rfl⟩
      exact ⟨ev, hev, hk, rfl⟩
    · rintro ⟨ev, hev, hk, rfl⟩
      exact ⟨ev.seq, ⟨ev, hev, hk, rfl⟩, rfl⟩
  · rw [if_neg hd, show max base tail + 1 = base + 1 by omega, mem_userSeqs hresults h]

theorem parse_eq_userMsg {s : String} : EventKind.parse s = .userMsg ↔ s = "user_msg" := by
  constructor
  · intro h
    have := EventKind.asStr_parse (s := s) (by simp [h])
    rw [← this, h]
    rfl
  · rintro rfl
    rfl

theorem Adds.storedUserSeqs : ∀ {evs : List EventRecord} {db db' : Db}, Adds evs db db' →
    (∀ ev ∈ evs, ev.conversationId = cid) → db'.runs = db.runs ∧ db'.outbox = db.outbox ∧
      ∀ x, x ∈ Execlaw.storedUserSeqs db' cid ↔
        (∃ ev ∈ evs, ev.kind = .userMsg ∧ ev.seq = x) ∨ x ∈ Execlaw.storedUserSeqs db cid
  | [], db, db', h, _ => by cases h; simp
  | ev :: evs, db, db', ⟨row, hrow, h⟩, hcid => by
    obtain ⟨hev, hcid⟩ := List.forall_mem_cons.1 hcid
    obtain ⟨hruns, houtbox, hmem⟩ := h.storedUserSeqs hcid
    refine ⟨hruns, houtbox, fun x => ?_⟩
    have hkind : ev.kind = .userMsg ↔ row.kind = "user_msg" := by
      rw [← hrow]
      exact parse_eq_userMsg
    have hseq : ev.seq = row.seq := by rw [← hrow]; rfl
    have hrowcid : row.conversationId = cid := by rw [← hev, ← hrow]; rfl
    have hstored : x ∈ Execlaw.storedUserSeqs (db.addEvent row) cid ↔
        (ev.kind = .userMsg ∧ ev.seq = x) ∨ x ∈ Execlaw.storedUserSeqs db cid := by
      rw [hkind, hseq]
      unfold Execlaw.storedUserSeqs Db.addEvent
      by_cases hk : row.kind = "user_msg"
      · simp [hk, hrowcid, @eq_comm Int x]
      · simp [hk]
    rw [hmem, hstored, List.exists_mem_cons_iff]
    exact or_left_comm.trans or_assoc.symm

/-! ## A committed turn -/

theorem latestUserSeq_eq (db : Db) (cid : String) : latestUserSeq db cid = (storedUserSeqs db cid).max? := rfl

theorem source_of_adds {batch : List EventRecord} {db₁ : Db}
    (hbatch : enforceToolPairing codec cid base events now = .ok batch)
    (h : Adds (rebase batch (tailSeq (loadIntegrityRows db cid) - base)) db db₁) : db₁.outbox = db.outbox ∧
      (activeRunSource db₁ cid).or (latestUserSeq db₁ cid) = turnSource codec db cid base events := by
  obtain ⟨hruns, houtbox, hmem⟩ := h.storedUserSeqs (rebase_conversationId (enforceToolPairing_spec hbatch).1)
  refine ⟨houtbox, ?_⟩
  unfold turnSource activeRunSource
  rw [hruns, latestUserSeq_eq, max?_congr fun x => ?_]
  rw [hmem, List.mem_append, mem_userSeqs_rebase hbatch]

theorem both_of_hasToolResult {out : List EventRecord} (h : hasToolResult out = false) (o : UInt32) :
    ¬ Both codec (out.map EventRecord.pending) o := by
  rintro ⟨-, e, he, ho⟩
  obtain ⟨ev, hev, rfl⟩ := List.mem_map.1 he
  have hk : ev.pending.kind ≠ .toolResult := by
    intro hk
    have := List.any_eq_false.1 h ev hev
    exact this (decide_eq_true hk)
  rw [resultOrdinal_none hk] at ho
  cases ho

theorem finishCommit_release {evs : List EventRecord} {db₁ : Db}
    (h : finishCommit codec cid Projection.none evs db₁ = .ok (out, db')) : out = evs ∧ ∃ keys,
      db'.outbox = releaseKeys keys db₁.outbox ∧
      ∀ key, key ∈ keys ↔ ∃ s o, (activeRunSource db₁ cid).or (latestUserSeq db₁ cid) = some s ∧
        Both codec (out.map EventRecord.pending) o ∧ key = mintKey cid s o := by
  obtain ⟨db₂, h₂, h⟩ := bind_eq_ok.1 h
  cases h₂
  cases h
  refine ⟨rfl, ?_⟩
  by_cases hres : hasToolResult out = true
  · rw [if_pos hres]
    exact release_outbox out db₁
  · rw [if_neg hres]
    refine ⟨[], by simp [releaseKeys], fun key => ⟨fun h => by simp at h, ?_⟩⟩
    rintro ⟨s, o, -, ho, -⟩
    exact absurd ho (both_of_hasToolResult (by simpa using hres) o)

theorem commitTurn_release (h : commitTurn mac codec ring cid base events now db = (.ok out, db')) :
    (∃ slots, Woven codec events out slots) ∧ ∃ keys, db'.outbox = releaseKeys keys db.outbox ∧
      ∀ key, key ∈ keys ↔ ∃ s o, turnSource codec db cid base events = some s ∧
        Both codec (out.map EventRecord.pending) o ∧ key = mintKey cid s o := by
  obtain ⟨batch, hbatch, h⟩ := commitTurnWithProjection_ok_iff.1 h
  obtain ⟨-, slots, hw⟩ := enforceToolPairing_woven hbatch
  have hfinish : ∃ db₁ db₂, Adds (rebase batch (tailSeq (loadIntegrityRows db cid) - base)) db db₁ ∧
      db₂ = { db₁ with heads := db₂.heads } ∧
      finishCommit codec cid Projection.none (rebase batch (tailSeq (loadIntegrityRows db cid) - base)) db₂ =
        .ok (out, db') := by
    cases ring with
    | none =>
      unfold commitMaterialized at h
      dsimp only at h
      by_cases hhead : (loadIntegrityHead db cid).isSome = true
      · rw [if_pos hhead] at h
        cases h
      · rw [if_neg hhead] at h
        obtain ⟨db₁, h₁, h⟩ := bind_eq_ok.1 h
        exact ⟨db₁, db₁, insertPlain_adds h₁, rfl, h⟩
    | some ring =>
      obtain ⟨head, key, head', db₁, -, -, h₁, h⟩ := commitMaterialized_keyed_iff.1 h
      exact ⟨db₁, _, insertChained_adds h₁, rfl, h⟩
  obtain ⟨db₁, db₂, hadds, hdb₂, hfinish⟩ := hfinish
  obtain ⟨rfl, hkeys⟩ := finishCommit_release hfinish
  obtain ⟨houtbox, hsource⟩ := source_of_adds hbatch hadds
  have hout₂ : db₂.outbox = db.outbox := by rw [hdb₂]; exact houtbox
  have hsource₂ : (activeRunSource db₂ cid).or (latestUserSeq db₂ cid) = turnSource codec db cid base events := by
    rw [hdb₂]
    exact hsource
  rw [hout₂, hsource₂] at hkeys
  refine ⟨⟨slots, ?_, hw.weave, hw.cancels⟩, hkeys⟩
  rw [← hw.reads]
  unfold rebase
  split
  · rw [List.map_map]
    rfl
  · rfl

/-! ## Sends follow results -/

/-- `r'` is `r`, or `r` released as the send of a tool call that the caller's batch has both sides of, for the turn's
source event and no other conversation, event or ordinal. -/
def FollowsResult (codec : Codec) (cid : String) (source : Option Int) (events : List PendingEvent)
    (r r' : OutboxRec) : Prop :=
  r' = r ∨ r.Staged ∧ r' = r.released ∧ (∃ s o, r.idempotencyKey = mintKey cid s o) ∧
    ∀ c s o, r.idempotencyKey = mintKey c s o → c = cid ∧ source = some s ∧ Both codec events o

def NoOrphanSend (codec : Codec) (cid : String) (source : Option Int) (events : List PendingEvent)
    (outbox : List OutboxRec) : Prop :=
  ∀ r ∈ outbox, r.Staged → ∀ s o, source = some s → r.idempotencyKey = mintKey cid s o →
    ∀ ev ∈ events, ¬ Unanswered codec events ev o

theorem Woven.both {slots : List Slot} (hcodec : codec.Faithful) (hw : Woven codec events out slots) :
    Both codec (out.map EventRecord.pending) o ↔ Both codec events o ∨ ∃ ev ∈ events, Unanswered codec events ev o := by
  unfold Both
  rw [hw.uses, hw.results hcodec]
  constructor
  · rintro ⟨huse, hres | hlack⟩
    · exact .inl ⟨huse, hres⟩
    · exact .inr hlack
  · rintro (⟨huse, hres⟩ | ⟨ev, hev, hlack⟩)
    · exact ⟨huse, .inl hres⟩
    · exact ⟨⟨ev, hev, hlack.1⟩, .inr ⟨ev, hev, hlack⟩⟩

theorem forall₂_releaseKeys {R : OutboxRec → OutboxRec → Prop} (hrefl : ∀ r, R r r) (keys : List String)
    (rows : List OutboxRec) : List.Forall₂ R rows (releaseKeys keys rows) ↔
      ∀ r ∈ rows, r.Staged → r.idempotencyKey ∈ keys → R r r.released := by
  unfold releaseKeys
  rw [List.forall₂_map_right_iff, List.forall₂_same]
  refine forall₂_congr fun r _ => ?_
  by_cases hs : r.Staged
  · by_cases hk : r.idempotencyKey ∈ keys
    · simp [hs, hk]
    · simp [hs, hk, hrefl]
  · simp [hs, hrefl]

theorem released_ne {r : OutboxRec} (hs : r.Staged) : r.released ≠ r := by
  intro h
  have hnot := not_staged_released r
  rw [h] at hnot
  exact hnot hs

/-- **Staged sends follow the tool result** exactly when no tool use without a result in the caller's batch has a send
staged for the turn: the cancellation written behind such a use releases its send. -/
theorem sends_follow_iff (hcodec : codec.Faithful) (base now : Int) (events : List PendingEvent) (db : Db) :
    (∀ e, (commitTurn mac codec ring cid base events now db).1 = .error e →
      (commitTurn mac codec ring cid base events now db).2 = db) ∧
    ∀ out, (commitTurn mac codec ring cid base events now db).1 = .ok out →
      (List.Forall₂ (FollowsResult codec cid (turnSource codec db cid base events) events) db.outbox
          (commitTurn mac codec ring cid base events now db).2.outbox ↔
        NoOrphanSend codec cid (turnSource codec db cid base events) events db.outbox) := by
  refine ⟨fun e he => ?_, fun out hout => ?_⟩
  · unfold commitTurn commitTurnWithProjection at he ⊢
    cases hbatch : enforceToolPairing codec cid base events now with
    | error e' => rfl
    | ok batch =>
      rw [hbatch] at he
      exact transaction_error he
  · obtain ⟨⟨slots, hw⟩, keys, houtbox, hkeys⟩ := commitTurn_release (Prod.ext hout rfl)
    rw [houtbox, forall₂_releaseKeys fun r => .inl rfl]
    constructor
    · intro hall r hr hs s o hsource hkey ev hev hlack
      have hin : r.idempotencyKey ∈ keys := (hkeys _).2 ⟨s, o, hsource, (hw.both hcodec).2 (.inr ⟨ev, hev, hlack⟩), hkey⟩
      rcases hall r hr hs hin with h | ⟨-, -, -, h⟩
      · exact released_ne hs h
      · obtain ⟨-, -, -, res, hres, ho⟩ := h cid s o hkey
        exact hlack.2 res hres ho
    · intro hno r hr hs hin
      obtain ⟨s, o, hsource, hboth, hkey⟩ := (hkeys _).1 hin
      refine .inr ⟨hs, rfl, ⟨s, o, hkey⟩, fun c s' o' hkey' => ?_⟩
      obtain ⟨rfl, rfl, rfl⟩ := mintKey_inj (hkey.symm.trans hkey')
      refine ⟨rfl, hsource, ?_⟩
      rcases (hw.both hcodec).1 hboth with hboth | ⟨ev, hev, hlack⟩
      · exact hboth
      · exact absurd hlack (hno r hr hs s o hsource hkey ev hev)

/-- The send `stagePluginText` stages for a tool call of the turn that answers event 1. -/
def sampleStaged (ordinal : UInt32) : OutboxRec where
  id := ordinal.toNat
  idempotencyKey := mintKey "c" 1 ordinal
  conversationId := "c"
  effectKind := "transport.send"
  payload := []
  status := .pending
  attempts := 0
  nextAttemptAt := some stagedAt
  lastError := none
  enqueuedSeq := 1

def stagedDb : Db where
  events := [{ conversationId := "c", seq := 1, kind := "user_msg", payload := [], committedAt := 0, actor := none }]
  outbox := [sampleStaged 65536, sampleStaged 65537]

def sampleTurn (events : List PendingEvent) : Except DbError (List EventRecord) × Db :=
  commitTurn flatMac namedCodec none "c" 1 events 9 stagedDb

/-- Of two staged sends, the one with both sides in the batch goes. -/
theorem sends_follow_sample : ∃ out, (sampleTurn [sampleUse 65537, sampleResult 65537]).1 = .ok out ∧
    (sampleTurn [sampleUse 65537, sampleResult 65537]).2.outbox = [sampleStaged 65536, (sampleStaged 65537).released] ∧
    (List.Forall₂ (FollowsResult namedCodec "c"
        (turnSource namedCodec stagedDb "c" 1 [sampleUse 65537, sampleResult 65537]) [sampleUse 65537, sampleResult 65537])
        stagedDb.outbox (sampleTurn [sampleUse 65537, sampleResult 65537]).2.outbox ↔
      NoOrphanSend namedCodec "c" (turnSource namedCodec stagedDb "c" 1 [sampleUse 65537, sampleResult 65537])
        [sampleUse 65537, sampleResult 65537] stagedDb.outbox) := by
  have hok : (sampleTurn [sampleUse 65537, sampleResult 65537]).1.toOption.isSome = true := by decide +kernel
  cases hrun : (sampleTurn [sampleUse 65537, sampleResult 65537]).1 with
  | error e => rw [hrun] at hok; cases hok
  | ok out =>
    exact ⟨out, rfl, by decide +kernel, (sends_follow_iff namedCodec_faithful 1 9 _ stagedDb).2 out hrun⟩

/-- **A cancelled tool call's send goes out**: the batch holds the use alone, and its staged send is released. -/
theorem orphan_send_released : ¬ ∀ (codec : Codec), codec.Faithful → ∀ (mac : Mac) (ring : Option KeyRing) (cid : String)
    (base now : Int) (events : List PendingEvent) (db : Db) (out : List EventRecord),
    (commitTurn mac codec ring cid base events now db).1 = .ok out →
      List.Forall₂ (FollowsResult codec cid (turnSource codec db cid base events) events) db.outbox
        (commitTurn mac codec ring cid base events now db).2.outbox := by
  intro hall
  have hok : (sampleTurn [sampleUse 65536]).1.toOption.isSome = true := by decide +kernel
  cases hrun : (sampleTurn [sampleUse 65536]).1 with
  | error e => rw [hrun] at hok; cases hok
  | ok out =>
    have hfollows := hall namedCodec namedCodec_faithful flatMac none "c" 1 9 [sampleUse 65536] stagedDb out hrun
    have houtbox : (sampleTurn [sampleUse 65536]).2.outbox = [(sampleStaged 65536).released, sampleStaged 65537] := by
      decide +kernel
    rw [show (commitTurn flatMac namedCodec none "c" 1 [sampleUse 65536] 9 stagedDb).2.outbox = _ from houtbox] at hfollows
    rcases (List.forall₂_cons.1 hfollows).1 with h | ⟨-, -, -, h⟩
    · revert h
      decide
    · obtain ⟨-, -, -, e, he, ho⟩ := h "c" 1 65536 rfl
      rw [List.mem_singleton.1 he, resultOrdinal_none (by decide)] at ho
      cases ho

end Execlaw
