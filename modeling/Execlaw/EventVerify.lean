import Execlaw.EventLog
import Execlaw.Steps
/-!
# EventVerify — what the verifier accepts

`verifyIntegrity` restated as relations: a legacy row carries no tag or its own (`LegacyOk`), the v2 rows are a run of
`Linked` from the genesis tag to the head's tag, and the head's checkpoint signs that end (`Anchored`).  Every later
proof about the log reads the verifier through `verifyIntegrity_head` and `verifyIntegrity_headless`.
-/
namespace Execlaw

open Wire EventHmac Steps

variable {mac : Mac} {ring : KeyRing} {cid : String}

def LegacyOk (mac : Mac) (ring : KeyRing) (row : IntegrityRow) : Prop :=
  ∀ b, row.tag = some b → ∃ key, ring.keyFor row.keyId = some key ∧ b = (mac key (v1Canonical row.event)).bytes

theorem verify_ok_iff {ev : EventRecord} {tag : Option (List UInt8)} {keyId : Int} :
    verify mac (some ring) ev tag keyId = .ok () ↔
      ∀ b, tag = some b → ∃ key, ring.keyFor keyId = some key ∧ b = (mac key (v1Canonical ev)).bytes := by
  unfold verify
  cases tag with
  | none => simp
  | some bytes =>
    dsimp only
    cases ring.keyFor keyId with
    | none => simp
    | some key =>
      by_cases hlen : bytes.length = 32
      · simp only [hlen, dite_true, verifyEvent, decide_eq_true_eq]
        constructor
        · intro h b hb
          cases hb
          by_cases hm : mac key (v1Canonical ev) = ⟨bytes, hlen⟩
          · exact ⟨key, rfl, by rw [hm]⟩
          · rw [if_neg hm] at h
            cases h
        · intro h
          obtain ⟨k, hk, hb⟩ := h bytes rfl
          cases hk
          rw [if_pos (Tag.ext_bytes hb.symm)]
      · simp only [hlen, dite_false]
        constructor
        · intro h; cases h
        · intro h
          obtain ⟨k, hk, hb⟩ := h bytes rfl
          exact absurd (hb ▸ (mac k (v1Canonical ev)).len) hlen

theorem verifyLegacyRows_ok_iff : ∀ {rows : List IntegrityRow},
    verifyLegacyRows mac ring rows = .ok () ↔ ∀ row ∈ rows, LegacyOk mac ring row
  | [] => by simp [verifyLegacyRows]
  | row :: rows => by
    rw [verifyLegacyRows, bind_eq_ok, List.forall_mem_cons]
    constructor
    · rintro ⟨u, h, hs⟩
      exact ⟨verify_ok_iff.1 h, verifyLegacyRows_ok_iff.1 hs⟩
    · rintro ⟨h, hs⟩
      exact ⟨(), verify_ok_iff.2 h, verifyLegacyRows_ok_iff.2 hs⟩

theorem fixedTag_ok_iff {b : List UInt8} {ctx : String} {t : Tag} : fixedTag b ctx = .ok t ↔ b = t.bytes := by
  unfold fixedTag
  by_cases h : b.length = 32
  · rw [dif_pos h]
    constructor
    · intro heq; cases heq; rfl
    · rintro rfl; rfl
  · rw [dif_neg h]
    constructor
    · intro heq; cases heq
    · rintro rfl; exact absurd t.len h

theorem requiredTag_ok_iff {stored : Option (List UInt8)} {missing ctx : String} {t : Tag} :
    requiredTag stored missing ctx = .ok t ↔ stored = some t.bytes := by
  unfold requiredTag
  cases stored with
  | none => simp
  | some b => simp [fixedTag_ok_iff]

/-! ## The chain -/

/-- **A chained row in its place**: behind the tag and at the sequence of the state before it, it names that tag, and
its own tag, taken over it under its key, is the state after it. -/
def Linked (mac : Mac) (ring : KeyRing) (s : Tag × Int) (row : IntegrityRow) (s' : Tag × Int) : Prop :=
  row.event.seq = s.2 ∧ row.prevTag = some s.1.bytes ∧ row.tag = some s'.1.bytes ∧ s'.2 = s.2 + 1 ∧
    ∃ key, ring.keyFor row.keyId = some key ∧
      s'.1 = mac key (canonicalChainEvent (v1Canonical row.event) row.keyId s.1)

theorem verifyChainRow_ok_iff {prev tag : Tag} {seq : Int} {row : IntegrityRow} :
    verifyChainRow mac ring cid prev seq row = .ok tag ↔ Linked mac ring (prev, seq) row (tag, seq + 1) := by
  unfold verifyChainRow Linked
  by_cases hseq : row.event.seq = seq
  · rw [if_neg (not_not.2 hseq), bind_eq_ok]
    constructor
    · rintro ⟨stored, hstored, h⟩
      rw [requiredTag_ok_iff] at hstored
      by_cases hprev : stored = prev
      · subst hprev
        rw [if_neg (not_not.2 rfl), bind_eq_ok] at h
        obtain ⟨t, ht, h⟩ := h
        rw [requiredTag_ok_iff] at ht
        dsimp only at h
        cases hk : ring.keyFor row.keyId with
        | none => rw [hk] at h; cases h
        | some key =>
          rw [hk] at h
          simp only [verifyEvent, decide_eq_true_eq] at h
          by_cases hm : mac key (canonicalChainEvent (v1Canonical row.event) row.keyId stored) = t
          · rw [if_pos hm] at h
            cases h
            exact ⟨hseq, hstored, ht, rfl, key, rfl, hm.symm⟩
          · rw [if_neg hm] at h
            cases h
      · rw [if_pos hprev] at h
        cases h
    · rintro ⟨-, hp, ht, -, key, hk, hm⟩
      refine ⟨prev, requiredTag_ok_iff.2 hp, ?_⟩
      rw [if_neg (not_not.2 rfl), bind_eq_ok]
      refine ⟨tag, requiredTag_ok_iff.2 ht, ?_⟩
      dsimp only
      rw [hk]
      simp only [verifyEvent, decide_eq_true_eq]
      rw [if_pos hm.symm]
  · rw [if_pos hseq]
    constructor
    · intro h; cases h
    · intro h; exact absurd h.1 hseq

theorem verifyChain_ok_iff : ∀ {rows : List IntegrityRow} {prev tail : Tag} {seq next : Int},
    verifyChain mac ring cid rows prev seq = .ok (tail, next) ↔ Run (Linked mac ring) (prev, seq) rows (tail, next)
  | [], prev, tail, seq, next => by
    rw [verifyChain, run_nil]
    constructor
    · intro h; cases h; rfl
    · intro h; cases h; rfl
  | row :: rows, prev, tail, seq, next => by
    rw [verifyChain, bind_eq_ok, run_cons]
    constructor
    · rintro ⟨t, ht, h⟩
      exact ⟨_, verifyChainRow_ok_iff.1 ht, verifyChain_ok_iff.1 h⟩
    · rintro ⟨⟨t, n⟩, ht, h⟩
      obtain rfl : n = seq + 1 := ht.2.2.2.1
      exact ⟨t, verifyChainRow_ok_iff.2 ht, verifyChain_ok_iff.2 h⟩

/-- **The stored head anchors the rows**: it starts a chain at the genesis tag, the chain ends in `tail` at the head's
sequence, and the checkpoint signs that end. -/
structure Anchored (mac : Mac) (ring : KeyRing) (cid : String) (rows : List IntegrityRow) (head : IntegrityHead)
    (tail : Tag) : Prop where
  start : 1 ≤ head.chainStartSeq
  chain : ∃ key, ring.keyFor head.genesisKeyId = some key ∧
    Run (Linked mac ring) (mac key (legacyGenesisCanonical cid head.chainStartSeq rows), head.chainStartSeq)
      (rows.filter IntegrityRow.isChained) (tail, head.headSeq + 1)
  headTag : head.headTag = tail.bytes
  checkpoint : ∃ key, ring.keyFor head.keyId = some key ∧ head.checkpointTag =
    (mac key (canonicalCheckpoint cid head.chainStartSeq head.headSeq tail head.genesisKeyId head.keyId)).bytes

theorem verifyCheckpoint_ok_iff {head : IntegrityHead} {tail : Tag} {seq : Int} :
    verifyCheckpoint mac ring cid head tail seq = .ok () ↔ head.headSeq = seq ∧ head.headTag = tail.bytes ∧
      ∃ key, ring.keyFor head.keyId = some key ∧ head.checkpointTag =
        (mac key (canonicalCheckpoint cid head.chainStartSeq head.headSeq tail head.genesisKeyId head.keyId)).bytes := by
  unfold verifyCheckpoint
  rw [bind_eq_ok]
  constructor
  · rintro ⟨stored, hstored, h⟩
    rw [fixedTag_ok_iff] at hstored
    by_cases hne : head.headSeq ≠ seq ∨ stored ≠ tail
    · rw [if_pos hne] at h
      cases h
    · rw [if_neg hne] at h
      obtain ⟨hseq, rfl⟩ : head.headSeq = seq ∧ stored = tail := by simpa using hne
      dsimp only at h
      cases hk : ring.keyFor head.keyId with
      | none => rw [hk] at h; cases h
      | some key =>
        rw [hk] at h
        obtain ⟨cp, hcp, h⟩ := bind_eq_ok.1 h
        rw [fixedTag_ok_iff] at hcp
        simp only [verifyEvent, decide_eq_true_eq] at h
        split at h
        · rename_i hm
          exact ⟨hseq, hstored, key, rfl, by rw [hcp, hm]⟩
        · cases h
  · rintro ⟨hseq, htag, key, hk, hcp⟩
    refine ⟨tail, fixedTag_ok_iff.2 htag, ?_⟩
    rw [if_neg (by simp [hseq])]
    dsimp only
    rw [hk]
    refine bind_eq_ok.2 ⟨_, fixedTag_ok_iff.2 hcp, ?_⟩
    simp [verifyEvent]

theorem verifyIntegrity_head {rows : List IntegrityRow} {head : IntegrityHead} :
    verifyIntegrity mac (some ring) cid rows (some head) = .ok () ↔
      (∀ row ∈ rows, row.isLegacy → LegacyOk mac ring row) ∧ ∃ tail, Anchored mac ring cid rows head tail := by
  have hlegacy : verifyLegacyRows mac ring (rows.filter IntegrityRow.isLegacy) = .ok () ↔
      ∀ row ∈ rows, row.isLegacy → LegacyOk mac ring row := by
    rw [verifyLegacyRows_ok_iff]
    simp
  unfold verifyIntegrity
  rw [bind_eq_ok]
  dsimp only
  constructor
  · rintro ⟨u, hl, h⟩
    refine ⟨hlegacy.1 hl, ?_⟩
    by_cases hstart : head.chainStartSeq < 1
    · rw [if_pos hstart] at h
      cases h
    · rw [if_neg hstart] at h
      cases hg : ring.keyFor head.genesisKeyId with
      | none => rw [hg] at h; cases h
      | some key =>
        rw [hg] at h
        obtain ⟨⟨tail, next⟩, hchain, hcp⟩ := bind_eq_ok.1 h
        obtain ⟨hseq, htag, hcheck⟩ := verifyCheckpoint_ok_iff.1 hcp
        obtain rfl : next = head.headSeq + 1 := by omega
        exact ⟨tail, by omega, ⟨key, hg, verifyChain_ok_iff.1 hchain⟩, htag, hcheck⟩
  · rintro ⟨hl, tail, hstart, ⟨key, hg, hchain⟩, htag, hcheck⟩
    refine ⟨(), hlegacy.2 hl, ?_⟩
    rw [if_neg (by omega), hg]
    refine bind_eq_ok.2 ⟨_, verifyChain_ok_iff.2 hchain, ?_⟩
    exact verifyCheckpoint_ok_iff.2 ⟨by omega, htag, hcheck⟩

theorem verifyIntegrity_headless {rows : List IntegrityRow} :
    verifyIntegrity mac (some ring) cid rows none = .ok () ↔
      (∀ row ∈ rows, row.isLegacy → LegacyOk mac ring row) ∧ ∀ row ∈ rows, ¬ row.isChained := by
  unfold verifyIntegrity
  rw [bind_eq_ok]
  dsimp only
  constructor
  · rintro ⟨u, hl, h⟩
    rw [verifyLegacyRows_ok_iff] at hl
    refine ⟨fun row hrow hleg => hl row (List.mem_filter.2 ⟨hrow, hleg⟩), ?_⟩
    by_cases he : (rows.filter IntegrityRow.isChained).isEmpty
    · rw [List.isEmpty_iff, List.filter_eq_nil_iff] at he
      exact he
    · rw [if_neg he] at h
      cases h
  · rintro ⟨hl, hc⟩
    refine ⟨(), verifyLegacyRows_ok_iff.2 fun row hrow => ?_, ?_⟩
    · exact hl row (List.mem_filter.1 hrow).1 (List.mem_filter.1 hrow).2
    · rw [if_pos (List.isEmpty_iff.2 (List.filter_eq_nil_iff.2 hc))]

/-! ## Sequence numbers along the chain -/

/-- Events numbered one after another from `n`. -/
def Numbered : Int → List EventRecord → Prop
  | _, [] => True
  | n, ev :: evs => ev.seq = n ∧ Numbered (n + 1) evs

theorem numbered_append : ∀ {evs evs' : List EventRecord} {n : Int},
    Numbered n (evs ++ evs') ↔ Numbered n evs ∧ Numbered (n + evs.length) evs'
  | [], evs', n => by simp [Numbered]
  | ev :: evs, evs', n => by
    have hlen : n + ((ev :: evs).length : Int) = n + 1 + evs.length := by
      rw [List.length_cons]
      omega
    rw [List.cons_append, Numbered, Numbered, numbered_append, hlen, and_assoc]

theorem mem_numbered : ∀ {evs : List EventRecord} {n : Int}, Numbered n evs → ∀ ev ∈ evs,
    n ≤ ev.seq ∧ ev.seq < n + evs.length
  | e :: evs, n, h, ev, hev => by
    rw [List.length_cons]
    rcases List.mem_cons.1 hev with rfl | hev
    · have := h.1
      omega
    · have := mem_numbered h.2 ev hev
      omega

theorem numbered_of_run : ∀ {rows : List IntegrityRow} {s s' : Tag × Int}, Run (Linked mac ring) s rows s' →
    Numbered s.2 (rows.map IntegrityRow.event) ∧ s'.2 = s.2 + rows.length
  | [], s, s', h => by
    rw [run_nil] at h
    subst h
    simp [Numbered]
  | row :: rows, s, s', ⟨m, hm, h⟩ => by
    obtain ⟨hnum, hlen⟩ := numbered_of_run h
    rw [hm.2.2.2.1] at hnum hlen
    refine ⟨⟨hm.1, hnum⟩, ?_⟩
    rw [hlen, List.length_cons]
    omega

end Execlaw
