import Execlaw.Wire
/-!
# EventHmac — the bytes an event-log tag authenticates (`core/src/event_hmac.rs`)

Four encodings go under the MAC: a legacy-v1 row, a chained v2 row, the genesis anchor over the legacy prefix and the
terminal checkpoint.  HMAC-SHA256 itself is the parameter `Mac`; nothing is assumed of it here.  For each encoding this
module says what equal bytes determine.  A v1 row's bytes determine its fields only up to the cut between `actor` and
`payload` (`canonicalBytes_inj` asks for equally many NULs in the two actors); the other three are exact.
-/
namespace Execlaw

structure Tag where
  bytes : List UInt8
  len : bytes.length = 32
deriving DecidableEq

theorem Tag.length_zeros : (List.replicate 32 (0 : UInt8)).length = 32 := rfl

theorem Tag.ext_bytes {a b : Tag} (h : a.bytes = b.bytes) : a = b := by
  cases a; cases b; cases h; rfl

abbrev Mac := List UInt8 → List UInt8 → Tag

namespace EventHmac

open Wire

def canonicalBytes (conversationId : String) (seq : Int) (kind : String) (committedAt : Int) (actor : Option String)
    (payload : List UInt8) : List UInt8 :=
  utf8 conversationId ++ 0 :: (leI64 seq ++ (utf8 kind ++ 0 :: (leI64 committedAt ++
    (utf8 (actor.getD "") ++ 0 :: payload))))

def signEvent (mac : Mac) (key canonical : List UInt8) : Tag := mac key canonical

def verifyEvent (mac : Mac) (key canonical : List UInt8) (tag : Tag) : Bool := decide (mac key canonical = tag)

def chainDomain : List UInt8 := utf8 "execlaw/event-chain/v2\x00"

def canonicalChainEvent (v1Canonical : List UInt8) (keyId : Int) (prevTag : Tag) : List UInt8 :=
  chainDomain ++ (leI64 keyId ++ (prevTag.bytes ++ v1Canonical))

def genesisDomain : List UInt8 := utf8 "execlaw/event-chain-genesis/v2\x00"

def canonicalGenesis (conversationId : String) (chainStartSeq : Int) (legacyRows : List (List UInt8)) : List UInt8 :=
  genesisDomain ++ (leU64 (utf8 conversationId).length ++ (utf8 conversationId ++ (leI64 chainStartSeq ++
    (leU64 legacyRows.length ++ framed legacyRows))))

def checkpointDomain : List UInt8 := utf8 "execlaw/event-checkpoint/v2\x00"

def canonicalCheckpoint (conversationId : String) (chainStartSeq headSeq : Int) (headTag : Tag)
    (genesisKeyId keyId : Int) : List UInt8 :=
  checkpointDomain ++ (leU64 (utf8 conversationId).length ++ (utf8 conversationId ++ (leI64 chainStartSeq ++
    (leI64 headSeq ++ (headTag.bytes ++ (leI64 genesisKeyId ++ leI64 keyId))))))

/-! ## What equal bytes determine -/

variable {cid : String}

/-- **A v1 row's bytes**: within one conversation they fix the sequence, the kind, the time, and, once the two actors
hold equally many NULs, the actor and the payload. -/
theorem canonicalBytes_inj {s s' : Int} {k k' : String} {t t' : Int} {a a' : Option String} {p p' : List UInt8}
    (hs : I64 s) (hs' : I64 s') (ht : I64 t) (ht' : I64 t') (hk : (utf8 k).count 0 = (utf8 k').count 0)
    (h : canonicalBytes cid s k t a p = canonicalBytes cid s' k' t' a' p') :
    s = s' ∧ k = k' ∧ t = t' ∧
      ((utf8 (a.getD "")).count 0 = (utf8 (a'.getD "")).count 0 → a.getD "" = a'.getD "" ∧ p = p') := by
  unfold canonicalBytes at h
  have h := List.append_cancel_left h
  simp only [List.cons.injEq, true_and] at h
  obtain ⟨hseq, h⟩ := List.append_inj h (by simp)
  obtain ⟨hkind, h⟩ := cut_unique 0 _ _ _ _ hk h
  obtain ⟨htime, h⟩ := List.append_inj h (by simp)
  refine ⟨leI64_inj hs hs' hseq, utf8_inj hkind, leI64_inj ht ht' htime, fun hc => ?_⟩
  obtain ⟨hactor, rfl⟩ := cut_unique 0 _ _ _ _ hc h
  exact ⟨utf8_inj hactor, rfl⟩

theorem canonicalChainEvent_inj {v v' : List UInt8} {k k' : Int} {t t' : Tag} (hk : I64 k) (hk' : I64 k')
    (h : canonicalChainEvent v k t = canonicalChainEvent v' k' t') : v = v' ∧ k = k' ∧ t = t' := by
  unfold canonicalChainEvent at h
  have h := List.append_cancel_left h
  obtain ⟨hkey, h⟩ := List.append_inj h (by simp)
  obtain ⟨htag, rfl⟩ := List.append_inj h (by rw [t.len, t'.len])
  exact ⟨rfl, leI64_inj hk hk' hkey, Tag.ext_bytes htag⟩

theorem length_le_framed : ∀ (rows : List (List UInt8)), rows.length ≤ (framed rows).length
  | [] => Nat.le_refl _
  | r :: rs => by
    have := length_le_framed rs
    rw [framed]
    simp only [List.length_append, length_leU64, List.length_cons]
    omega

theorem canonicalGenesis_inj {s s' : Int} {rs rs' : List (List UInt8)} (hs : I64 s) (hs' : I64 s')
    (hfit : (canonicalGenesis cid s rs).length < 2 ^ 64) (h : canonicalGenesis cid s rs = canonicalGenesis cid s' rs') :
    s = s' ∧ rs = rs' := by
  have hfit' : (canonicalGenesis cid s' rs').length < 2 ^ 64 := h ▸ hfit
  unfold canonicalGenesis at h hfit hfit'
  simp only [List.length_append] at hfit hfit'
  have hr := length_le_framed rs
  have hr' := length_le_framed rs'
  have h := List.append_cancel_left (List.append_cancel_left (List.append_cancel_left h))
  obtain ⟨hseq, h⟩ := List.append_inj h (by simp)
  obtain ⟨hcount, h⟩ := List.append_inj h (by simp)
  have hlen : rs.length = rs'.length := leU64_inj (by omega) (by omega) hcount
  exact ⟨leI64_inj hs hs' hseq, framed_inj rs rs' hlen (by omega) h⟩

theorem canonicalCheckpoint_inj {c c' s s' : Int} {t t' : Tag} {g g' k k' : Int} (hc : I64 c) (hc' : I64 c')
    (hs : I64 s) (hs' : I64 s') (hg : I64 g) (hg' : I64 g') (hk : I64 k) (hk' : I64 k')
    (h : canonicalCheckpoint cid c s t g k = canonicalCheckpoint cid c' s' t' g' k') :
    c = c' ∧ s = s' ∧ t = t' ∧ g = g' ∧ k = k' := by
  unfold canonicalCheckpoint at h
  have h := List.append_cancel_left (List.append_cancel_left (List.append_cancel_left h))
  obtain ⟨hstart, h⟩ := List.append_inj h (by simp)
  obtain ⟨hseq, h⟩ := List.append_inj h (by simp)
  obtain ⟨htag, h⟩ := List.append_inj h (by rw [t.len, t'.len])
  obtain ⟨hgen, hkey⟩ := List.append_inj h (by simp)
  exact ⟨leI64_inj hc hc' hstart, leI64_inj hs hs' hseq, Tag.ext_bytes htag, leI64_inj hg hg' hgen,
    leI64_inj hk hk' hkey⟩

/-! ## Domain separation

A checkpoint is never read as another of the four.  Against the two other domain-separated encodings the prefixes
differ; against a v1 row, which begins with the conversation id, they need not: the id may itself begin with the
checkpoint's prefix.  Then the id is periodic (`checkpoint_periodic`) and the kind would have to start inside the
prefix, where no event kind's text starts. -/

theorem take_domain {d : List UInt8} {n : Nat} (hn : n ≤ d.length) (x : List UInt8) : (d ++ x).take n = d.take n :=
  List.take_append_of_le_length hn

theorem checkpoint_ne_chain (cid : String) (c s : Int) (t : Tag) (g k : Int) (v : List UInt8) (k' : Int) (t' : Tag) :
    canonicalCheckpoint cid c s t g k ≠ canonicalChainEvent v k' t' := by
  intro h
  have h17 := congrArg (List.take 17) h
  unfold canonicalCheckpoint canonicalChainEvent at h17
  rw [take_domain (by decide), take_domain (by decide)] at h17
  revert h17
  decide

theorem checkpoint_ne_genesis (cid : String) (c s : Int) (t : Tag) (g k : Int) (s' : Int) (rs : List (List UInt8)) :
    canonicalCheckpoint cid c s t g k ≠ canonicalGenesis cid s' rs := by
  intro h
  have h17 := congrArg (List.take 17) h
  unfold canonicalCheckpoint canonicalGenesis at h17
  rw [take_domain (by decide), take_domain (by decide)] at h17
  revert h17
  decide

theorem chain_ne_genesis (v : List UInt8) (k : Int) (t : Tag) (cid : String) (s : Int) (rs : List (List UInt8)) :
    canonicalChainEvent v k t ≠ canonicalGenesis cid s rs := by
  intro h
  have h20 := congrArg (List.take 20) h
  unfold canonicalChainEvent canonicalGenesis at h20
  rw [take_domain (by decide), take_domain (by decide)] at h20
  revert h20
  decide

theorem checkpointDomain_length : checkpointDomain.length = 28 := by decide

theorem checkpointDomain_zero : ∀ r < 27, checkpointDomain[r]? ≠ some 0 := by decide

theorem getElem?_mod_of_periodic {α : Type} (l : List α) (m n : Nat) (hm : 0 < m)
    (hper : ∀ q < n, l[q + m]? = l[q]?) (q : Nat) (hq : q < n + m) : l[q]? = l[q % m]? := by
  induction q using Nat.strongRecOn with
  | ind q ih =>
    by_cases hlt : q < m
    · rw [Nat.mod_eq_of_lt hlt]
    · have hstep := hper (q - m) (by omega)
      rw [show q - m + m = q by omega] at hstep
      rw [hstep, ih (q - m) (by omega) (by omega), Nat.mod_eq_sub_mod (show q ≥ m by omega)]

def kindClear (kind : String) : Prop :=
  3 ≤ (utf8 kind).length ∧ ∀ i < 9, (checkpointDomain.drop i).take 3 ≠ (utf8 kind).take 3

instance (kind : String) : Decidable (kindClear kind) := inferInstanceAs (Decidable (_ ∧ _))

theorem canonicalBytes_ne_checkpoint (cid : String) (sq : Int) (kind : String) (at_ : Int) (actor : Option String)
    (p : List UInt8) (c s : Int) (t : Tag) (g k : Int) (hk : kindClear kind) :
    canonicalBytes cid sq kind at_ actor p ≠ canonicalCheckpoint cid c s t g k := by
  intro h
  generalize hB : canonicalBytes cid sq kind at_ actor p = B at h
  have hD := checkpointDomain_length
  have hrow : ∀ q, q < (utf8 cid).length → B[q]? = (utf8 cid)[q]? := fun q hq => by
    rw [← hB, canonicalBytes, List.getElem?_append_left hq]
  have hdom : ∀ q, q < 28 → B[q]? = checkpointDomain[q]? := fun q hq => by
    rw [h, canonicalCheckpoint, List.getElem?_append_left (by omega)]
  -- the checkpoint repeats the id 36 bytes in, behind its prefix and the id's length
  have hper : ∀ q < (utf8 cid).length, B[q + 36]? = B[q]? := fun q hq => by
    rw [hrow q hq, h, canonicalCheckpoint, List.getElem?_append_right (by omega),
      List.getElem?_append_right (by simp; omega), List.getElem?_append_left (by simp; omega)]
    congr 1
  have hmod := getElem?_mod_of_periodic B 36 (utf8 cid).length (by decide) hper
  have hz : B[(utf8 cid).length]? = some 0 := by
    rw [← hB, canonicalBytes, List.getElem?_append_right (Nat.le_refl _)]
    simp
  have hkind : ∀ j, j < 3 → B[(utf8 cid).length + 9 + j]? = (utf8 kind)[j]? := fun j hj => by
    have hk3 := hk.1
    rw [← hB, canonicalBytes, List.getElem?_append_right (by omega),
      show (utf8 cid).length + 9 + j - (utf8 cid).length = (8 + j) + 1 by omega, List.getElem?_cons_succ,
      List.getElem?_append_right (by simp), List.getElem?_append_left (by simp; omega)]
    simp
  have hr : 27 ≤ (utf8 cid).length % 36 := by
    by_cases hlt : (utf8 cid).length % 36 < 27
    · rw [hmod _ (by omega), hdom _ (by omega)] at hz
      exact absurd hz (checkpointDomain_zero _ hlt)
    · omega
  refine hk.2 ((utf8 cid).length % 36 - 27) (by omega) (List.ext_getElem? fun j => ?_)
  rw [List.getElem?_take, List.getElem?_take, List.getElem?_drop]
  by_cases hj : j < 3
  · rw [if_pos hj, if_pos hj, ← hkind j hj, hmod _ (by omega), ← hdom _ (by omega)]
    congr 1
    omega
  · rw [if_neg hj, if_neg hj]

end EventHmac
end Execlaw
