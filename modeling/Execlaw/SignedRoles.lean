import Execlaw.Freshness
/-!
# SignedRoles — what equal canonical bytes say (`core/src/event_hmac.rs`, `core/src/events.rs`)

A tag authenticates one of five roles.  Four of them begin with a text of their own and prefix their variable parts with
lengths: their bytes fix them.  The v1 row has no such text and cuts its parts with a NUL, which its texts may hold.
Two roles with the same bytes are the same role exactly when no part was cut elsewhere (`Unconfused`).
-/
namespace Execlaw

open Wire EventHmac

inductive Signed
  | row (conversationId : String) (seq : Int) (kind : String) (committedAt : Int) (actor : Option String)
      (payload : List UInt8)
  | chainEvent (v1Canonical : List UInt8) (keyId : Int) (prevTag : Tag)
  | genesis (conversationId : String) (chainStartSeq : Int) (legacyRows : List (List UInt8))
  | checkpoint (conversationId : String) (chainStartSeq headSeq : Int) (headTag : Tag) (genesisKeyId keyId : Int)
  | freshness (formatVersion : Nat) (generatedAt keyId : Int) (heads : List FreshnessHead)
deriving DecidableEq

namespace Signed

def canonical : Signed → List UInt8
  | .row c s k t a p => canonicalBytes c s k t a p
  | .chainEvent v k t => canonicalChainEvent v k t
  | .genesis c s rs => canonicalGenesis c s rs
  | .checkpoint c s h t g k => canonicalCheckpoint c s h t g k
  | .freshness v t k hs => canonicalFreshness v t k hs

def normal : Signed → Signed
  | .row c s k t a p => .row c s k t (some (a.getD "")) p
  | m => m

def InRange : Signed → Prop
  | .row _ s _ t _ _ => I64 s ∧ I64 t
  | .chainEvent _ k _ => I64 k
  | .genesis _ s _ => I64 s
  | .checkpoint _ s h _ g k => I64 s ∧ I64 h ∧ I64 g ∧ I64 k
  | .freshness v t k hs => v < 2 ^ 32 ∧ I64 t ∧ I64 k ∧ ∀ h ∈ hs, I64 h.sequence

instance decidableInRange : (m : Signed) → Decidable m.InRange
  | .row _ s _ t _ _ => inferInstanceAs (Decidable (I64 s ∧ I64 t))
  | .chainEvent _ k _ => inferInstanceAs (Decidable (I64 k))
  | .genesis _ s _ => inferInstanceAs (Decidable (I64 s))
  | .checkpoint _ s h _ g k => inferInstanceAs (Decidable (I64 s ∧ I64 h ∧ I64 g ∧ I64 k))
  | .freshness v t k hs => inferInstanceAs (Decidable (v < 2 ^ 32 ∧ I64 t ∧ I64 k ∧ ∀ h ∈ hs, I64 h.sequence))

def Supplied (m : Signed) : Prop := m.InRange ∧ m.canonical.length < 2 ^ 64

instance (m : Signed) : Decidable m.Supplied := inferInstanceAs (Decidable (_ ∧ _))

end Signed

/-! ## Length-prefixed roles -/

theorem prefixed_inj {a b p q : List UInt8} (ha : a.length < 2 ^ 64) (hb : b.length < 2 ^ 64)
    (h : leU64 a.length ++ (a ++ p) = leU64 b.length ++ (b ++ q)) : a = b ∧ p = q := by
  obtain ⟨hlen, h⟩ := List.append_inj h (by simp)
  exact List.append_inj h (leU64_inj ha hb hlen)

variable {c c' : String}

theorem canonicalGenesis_fixed {s s' : Int} {rs rs' : List (List UInt8)} (hs : I64 s) (hs' : I64 s')
    (hfit : (canonicalGenesis c s rs).length < 2 ^ 64) (h : canonicalGenesis c s rs = canonicalGenesis c' s' rs') :
    c = c' ∧ s = s' ∧ rs = rs' := by
  have hfit' : (canonicalGenesis c' s' rs').length < 2 ^ 64 := h ▸ hfit
  have hc : c = c' := by
    unfold canonicalGenesis at h hfit hfit'
    simp only [List.length_append] at hfit hfit'
    exact utf8_inj (prefixed_inj (by omega) (by omega) (List.append_cancel_left h)).1
  subst hc
  exact ⟨rfl, canonicalGenesis_inj hs hs' hfit h⟩

theorem canonicalCheckpoint_fixed {s s' h h' : Int} {t t' : Tag} {g g' k k' : Int} (hs : I64 s) (hs' : I64 s')
    (hh : I64 h) (hh' : I64 h') (hg : I64 g) (hg' : I64 g') (hk : I64 k) (hk' : I64 k')
    (hfit : (canonicalCheckpoint c s h t g k).length < 2 ^ 64)
    (heq : canonicalCheckpoint c s h t g k = canonicalCheckpoint c' s' h' t' g' k') :
    c = c' ∧ s = s' ∧ h = h' ∧ t = t' ∧ g = g' ∧ k = k' := by
  have hfit' : (canonicalCheckpoint c' s' h' t' g' k').length < 2 ^ 64 := heq ▸ hfit
  have hc : c = c' := by
    unfold canonicalCheckpoint at heq hfit hfit'
    simp only [List.length_append] at hfit hfit'
    exact utf8_inj (prefixed_inj (by omega) (by omega) (List.append_cancel_left heq)).1
  subst hc
  exact ⟨rfl, canonicalCheckpoint_inj hs hs' hh hh' hg hg' hk hk' heq⟩

theorem length_le_canonicalHeads : ∀ (heads : List FreshnessHead), heads.length ≤ (canonicalHeads heads).length
  | [] => Nat.le_refl _
  | h :: hs => by
    have := length_le_canonicalHeads hs
    rw [canonicalHeads]
    simp only [List.length_append, length_leU64, List.length_cons]
    omega

theorem canonicalHeads_inj : ∀ (hs hs' : List FreshnessHead), hs.length = hs'.length →
    (∀ h ∈ hs, I64 h.sequence) → (∀ h ∈ hs', I64 h.sequence) → (canonicalHeads hs).length < 2 ^ 64 →
    canonicalHeads hs = canonicalHeads hs' → hs = hs'
  | [], [], _, _, _, _, _ => rfl
  | [], _ :: _, hl, _, _, _, _ => by simp at hl
  | _ :: _, [], hl, _, _, _, _ => by simp at hl
  | a :: hs, b :: hs', hl, hr, hr', hfit, h => by
    have hfit' : (canonicalHeads (b :: hs')).length < 2 ^ 64 := h ▸ hfit
    rw [canonicalHeads, canonicalHeads] at h
    rw [canonicalHeads] at hfit hfit'
    simp only [List.length_append] at hfit hfit'
    obtain ⟨hcid, h⟩ := prefixed_inj (by omega) (by omega) h
    obtain ⟨hseq, h⟩ := List.append_inj h (by simp)
    obtain ⟨htag, h⟩ := prefixed_inj (by omega) (by omega) h
    obtain ⟨ha, hr⟩ := List.forall_mem_cons.1 hr
    obtain ⟨hb, hr'⟩ := List.forall_mem_cons.1 hr'
    have hab : a = b := by
      cases a
      cases b
      simp only [FreshnessHead.mk.injEq]
      exact ⟨utf8_inj hcid, leI64_inj ha hb hseq, htag⟩
    rw [hab, canonicalHeads_inj hs hs' (by simpa using hl) hr hr' (by omega) h]

theorem canonicalFreshness_inj {v v' : Nat} {t t' k k' : Int} {hs hs' : List FreshnessHead} (hv : v < 2 ^ 32)
    (hv' : v' < 2 ^ 32) (ht : I64 t) (ht' : I64 t') (hk : I64 k) (hk' : I64 k') (hr : ∀ h ∈ hs, I64 h.sequence)
    (hr' : ∀ h ∈ hs', I64 h.sequence) (hfit : (canonicalFreshness v t k hs).length < 2 ^ 64)
    (h : canonicalFreshness v t k hs = canonicalFreshness v' t' k' hs') : v = v' ∧ t = t' ∧ k = k' ∧ hs = hs' := by
  have hfit' : (canonicalFreshness v' t' k' hs').length < 2 ^ 64 := h ▸ hfit
  unfold canonicalFreshness at h hfit hfit'
  simp only [List.length_append] at hfit hfit'
  have hlen := length_le_canonicalHeads hs
  have hlen' := length_le_canonicalHeads hs'
  obtain ⟨hversion, h⟩ := List.append_inj (List.append_cancel_left h) (by simp)
  obtain ⟨htime, h⟩ := List.append_inj h (by simp)
  obtain ⟨hkey, h⟩ := List.append_inj h (by simp)
  obtain ⟨hcount, h⟩ := List.append_inj h (by simp)
  have hcount := leU64_inj (by omega) (by omega) hcount
  exact ⟨leBytes_inj (w := 4) hv hv' hversion, leI64_inj ht ht' htime, leI64_inj hk hk' hkey,
    canonicalHeads_inj hs hs' hcount hr hr' (by omega) h⟩

/-! ## Domains -/

def freshnessDomain : List UInt8 := utf8 "execlaw/external-freshness/v1\x00"

def Signed.domain : Signed → Option (List UInt8)
  | .row .. => none
  | .chainEvent .. => some chainDomain
  | .genesis .. => some genesisDomain
  | .checkpoint .. => some checkpointDomain
  | .freshness .. => some freshnessDomain

def domains : List (List UInt8) := [chainDomain, genesisDomain, checkpointDomain, freshnessDomain]

theorem Signed.domain_prefix {m : Signed} {d : List UInt8} (h : m.domain = some d) :
    d ∈ domains ∧ d <+: m.canonical := by
  cases m with
  | row => cases h
  | chainEvent | genesis | checkpoint | freshness => cases h; exact ⟨by simp [domains], List.prefix_append _ _⟩

theorem domains_prefix_free : ∀ d ∈ domains, ∀ d' ∈ domains, d <+: d' → d = d' := by decide +kernel

theorem domain_nul : ∀ d ∈ domains, ∃ w : List UInt8, d = w ++ [0] ∧ 0 ∉ w := by
  have hdrop : ∀ d ∈ domains, d = d.dropLast ++ [0] ∧ (0 : UInt8) ∉ d.dropLast := by decide +kernel
  exact fun d hd => ⟨d.dropLast, hdrop d hd⟩

theorem domain_unique {d d' B : List UInt8} (hd : d ∈ domains) (hd' : d' ∈ domains) (h : d <+: B) (h' : d' <+: B) :
    d = d' := by
  rcases List.prefix_or_prefix_of_prefix h h' with hp | hp
  · exact domains_prefix_free d hd d' hd' hp
  · exact (domains_prefix_free d' hd' d hd hp).symm

theorem domain_in_text {d c rest : List UInt8} (hd : d ∈ domains) (h : d <+: c ++ 0 :: rest) : d <+: c ++ [0] := by
  obtain ⟨w, rfl, hw⟩ := domain_nul d hd
  obtain ⟨t, ht⟩ := h
  by_cases hlen : w.length ≤ c.length
  · refine List.prefix_of_prefix_length_le ⟨t, ht⟩ ?_ (by simpa using hlen)
    exact ⟨rest, by simp⟩
  · have hmem : (w ++ [0] ++ t)[c.length]? = some 0 := by rw [ht]; simp
    rw [List.append_assoc, List.getElem?_append_left (by omega)] at hmem
    exact absurd (List.mem_of_getElem? hmem) hw

/-! ## Roles with the same bytes -/

def nuls (s : String) : Nat := (utf8 s).count 0

/-- No part of the two roles can have been cut elsewhere: the texts of two v1 rows hold equally many NULs, and the
conversation id of a v1 row does not run into the other role's domain. -/
def Unconfused : Signed → Signed → Prop
  | .row c _ k _ a _, .row c' _ k' _ a' _ =>
    nuls c = nuls c' ∧ nuls k = nuls k' ∧ nuls (a.getD "") = nuls (a'.getD "")
  | .row c _ _ _ _ _, m => ∀ d, m.domain = some d → ¬ d <+: utf8 c ++ [0]
  | m, .row c _ _ _ _ _ => ∀ d, m.domain = some d → ¬ d <+: utf8 c ++ [0]
  | _, _ => True

theorem canonicalBytes_fixed {s s' : Int} {k k' : String} {t t' : Int} {a a' : Option String} {p p' : List UInt8}
    (hs : I64 s) (hs' : I64 s') (ht : I64 t) (ht' : I64 t') (hc : nuls c = nuls c') (hk : nuls k = nuls k')
    (ha : nuls (a.getD "") = nuls (a'.getD "")) (h : canonicalBytes c s k t a p = canonicalBytes c' s' k' t' a' p') :
    c = c' ∧ s = s' ∧ k = k' ∧ t = t' ∧ a.getD "" = a'.getD "" ∧ p = p' := by
  have hcid : c = c' := by
    unfold canonicalBytes at h
    exact utf8_inj (cut_unique 0 _ _ _ _ hc h).1
  subst hcid
  obtain ⟨hseq, hkind, htime, hactor⟩ := canonicalBytes_inj hs hs' ht ht' hk h
  obtain ⟨hactor, hpayload⟩ := hactor ha
  exact ⟨rfl, hseq, hkind, htime, hactor, hpayload⟩

theorem row_confused {c k : String} {s t : Int} {a : Option String} {p d : List UInt8} {m : Signed}
    (hd : m.domain = some d) (h : canonicalBytes c s k t a p = m.canonical) : d <+: utf8 c ++ [0] := by
  obtain ⟨hmem, hpre⟩ := Signed.domain_prefix hd
  rw [← h] at hpre
  exact domain_in_text hmem hpre

variable {m m' : Signed}

theorem domain_of_canonical {d d' : List UInt8} (hd : m.domain = some d) (hd' : m'.domain = some d')
    (h : m.canonical = m'.canonical) : d = d' := by
  obtain ⟨hmem, hpre⟩ := Signed.domain_prefix hd
  obtain ⟨hmem', hpre'⟩ := Signed.domain_prefix hd'
  exact domain_unique hmem hmem' hpre (h ▸ hpre')

theorem eq_of_domain {d d' : List UInt8} (hd : m.domain = some d) (hd' : m'.domain = some d') (hm : m.Supplied)
    (hm' : m'.Supplied) (h : m.canonical = m'.canonical) : m = m' := by
  have hsame := domain_of_canonical hd hd' h
  subst hsame
  obtain ⟨hrange, hfit⟩ := hm
  obtain ⟨hrange', -⟩ := hm'
  cases m with
  | row => cases hd
  | chainEvent v k t =>
    cases hd
    cases m' with
    | row => cases hd'
    | chainEvent v' k' t' =>
      obtain ⟨rfl, rfl, rfl⟩ := canonicalChainEvent_inj hrange hrange' h
      rfl
    | genesis | checkpoint | freshness => exact absurd (Option.some.inj hd') (by decide)
  | genesis c s rs =>
    cases hd
    cases m' with
    | row => cases hd'
    | chainEvent | checkpoint | freshness => exact absurd (Option.some.inj hd') (by decide)
    | genesis c' s' rs' =>
      obtain ⟨rfl, rfl, rfl⟩ := canonicalGenesis_fixed hrange hrange' hfit h
      rfl
  | checkpoint c s n t g k =>
    cases hd
    cases m' with
    | row => cases hd'
    | chainEvent | genesis | freshness => exact absurd (Option.some.inj hd') (by decide)
    | checkpoint c' s' n' t' g' k' =>
      obtain ⟨hs, hn, hg, hk⟩ := hrange
      obtain ⟨hs', hn', hg', hk'⟩ := hrange'
      obtain ⟨rfl, rfl, rfl, rfl, rfl, rfl⟩ := canonicalCheckpoint_fixed hs hs' hn hn' hg hg' hk hk' hfit h
      rfl
  | freshness v t k hs =>
    cases hd
    cases m' with
    | row => cases hd'
    | chainEvent | genesis | checkpoint => exact absurd (Option.some.inj hd') (by decide)
    | freshness v' t' k' hs' =>
      obtain ⟨hv, ht, hk, hr⟩ := hrange
      obtain ⟨hv', ht', hk', hr'⟩ := hrange'
      obtain ⟨rfl, rfl, rfl, rfl⟩ := canonicalFreshness_inj hv hv' ht ht' hk hk' hr hr' hfit h
      rfl

theorem same_iff_unconfused (hm : m.Supplied) (hm' : m'.Supplied) (h : m.canonical = m'.canonical) :
    m.normal = m'.normal ↔ Unconfused m m' := by
  cases hd : m.domain with
  | none =>
    cases m with
    | row c s k t a p =>
      cases hd' : m'.domain with
      | none =>
        cases m' with
        | row c' s' k' t' a' p' =>
          constructor
          · intro heq
            simp only [Signed.normal, Signed.row.injEq, Option.some.injEq] at heq
            obtain ⟨rfl, -, rfl, -, ha, -⟩ := heq
            exact ⟨rfl, rfl, by rw [ha]⟩
          · rintro ⟨hc, hk, ha⟩
            obtain ⟨hs, ht⟩ := hm.1
            obtain ⟨hs', ht'⟩ := hm'.1
            obtain ⟨rfl, rfl, rfl, rfl, hactor, rfl⟩ := canonicalBytes_fixed hs hs' ht ht' hc hk ha h
            simp [Signed.normal, hactor]
        | chainEvent | genesis | checkpoint | freshness => cases hd'
      | some d =>
        have hruns := row_confused hd' h
        cases m' with
        | row => cases hd'
        | chainEvent | genesis | checkpoint | freshness =>
          exact ⟨fun heq => by simp [Signed.normal] at heq, fun hu => absurd hruns (hu d hd')⟩
    | chainEvent | genesis | checkpoint | freshness => cases hd
  | some d =>
    cases hd' : m'.domain with
    | none =>
      cases m' with
      | row c' s' k' t' a' p' =>
        have hruns := row_confused hd h.symm
        cases m with
        | row => cases hd
        | chainEvent | genesis | checkpoint | freshness =>
          exact ⟨fun heq => by simp [Signed.normal] at heq, fun hu => absurd hruns (hu d hd)⟩
      | chainEvent | genesis | checkpoint | freshness => cases hd'
    | some d' =>
      obtain rfl := eq_of_domain hd hd' hm hm' h
      cases m with
      | row => cases hd
      | chainEvent | genesis | checkpoint | freshness => exact ⟨fun _ => trivial, fun _ => rfl⟩

/-! ## Unambiguous roles -/

def Signed.Plain : Signed → Prop
  | .row c _ k _ a _ => nuls c = 0 ∧ nuls k = 0 ∧ nuls (a.getD "") = 0 ∧ ∀ d ∈ domains, utf8 c ++ [0] ≠ d
  | _ => True

instance Signed.decidablePlain : (m : Signed) → Decidable m.Plain
  | .row c _ k _ a _ =>
    inferInstanceAs (Decidable (nuls c = 0 ∧ nuls k = 0 ∧ nuls (a.getD "") = 0 ∧ ∀ d ∈ domains, utf8 c ++ [0] ≠ d))
  | .chainEvent .. | .genesis .. | .checkpoint .. | .freshness .. => inferInstanceAs (Decidable True)

theorem domain_of_plain {c : String} {d : List UInt8} (hd : d ∈ domains) (hc : nuls c = 0) (h : d <+: utf8 c ++ [0]) :
    utf8 c ++ [0] = d := by
  obtain ⟨w, rfl, -⟩ := domain_nul d hd
  obtain ⟨t, ht⟩ := h
  have hnul : (0 : UInt8) ∉ utf8 c := List.count_eq_zero.1 hc
  by_cases hlen : w.length < (utf8 c).length
  · have hmem : (utf8 c ++ [0])[w.length]? = some 0 := by rw [← ht]; simp
    rw [List.getElem?_append_left hlen] at hmem
    exact absurd (List.mem_of_getElem? hmem) hnul
  · have hall := congrArg List.length ht
    simp only [List.length_append, List.length_singleton] at hall
    have ht0 : t = [] := List.length_eq_zero_iff.1 (by omega)
    rw [← ht, ht0, List.append_nil]

theorem Signed.Plain.unconfused (hm : m.Plain) (hm' : m'.Plain) : Unconfused m m' := by
  cases m with
  | row c s k t a p =>
    obtain ⟨hc, hk, ha, hd⟩ := hm
    cases m' with
    | row c' s' k' t' a' p' =>
      obtain ⟨hc', hk', ha', -⟩ := hm'
      exact ⟨hc.trans hc'.symm, hk.trans hk'.symm, ha.trans ha'.symm⟩
    | chainEvent | genesis | checkpoint | freshness =>
      intro d hdom hruns
      exact hd d (Signed.domain_prefix hdom).1 (domain_of_plain (Signed.domain_prefix hdom).1 hc hruns)
  | chainEvent | genesis | checkpoint | freshness =>
    cases m' with
    | row c' s' k' t' a' p' =>
      obtain ⟨hc', -, -, hd'⟩ := hm'
      intro d hdom hruns
      exact hd' d (Signed.domain_prefix hdom).1 (domain_of_plain (Signed.domain_prefix hdom).1 hc' hruns)
    | chainEvent | genesis | checkpoint | freshness => trivial

/-- **Canonical bytes are unambiguous** as far as no part can be cut elsewhere: of two roles with the same bytes, they
are the same exactly when they are unconfused; and roles whose texts hold no NUL, of conversations not called like a
domain, never share their bytes. -/
theorem canonical_unambiguous_iff {m m' : Signed} (hm : m.Supplied) (hm' : m'.Supplied)
    (h : m.canonical = m'.canonical) :
    (m.normal = m'.normal ↔ Unconfused m m') ∧ (m.Plain → m'.Plain → m.normal = m'.normal) :=
  ⟨same_iff_unconfused hm hm' h, fun hp hp' => (same_iff_unconfused hm hm' h).2 (hp.unconfused hp')⟩

def envelopedRow : Signed := .row "c" 1 "user_msg" 0 (some "controller") (versionedPayloadMagic ++ [1, 2])

def smuggledRow : Signed := .row "c" 1 "user_msg" 0 (some "controller\x00EXECLAW-EVENT") [1, 2]

def disguisedRow : Signed := .row "execlaw/event-chain/v2" 1 "" 0 none (List.replicate 22 0)

def disguisedEvent : Signed := .chainEvent [] 1 ⟨List.replicate 32 0, Tag.length_zeros⟩

/-- Two messages of an ordinary conversation. -/
theorem canonical_unambiguous_sample :
    (Signed.row "c" 1 "user_msg" 0 none [1]).canonical ≠ (Signed.row "c" 1 "user_msg" 0 (some "x") [1]).canonical := by
  intro h
  have hsame := (canonical_unambiguous_iff (by decide +kernel) (by decide +kernel) h).2 (by decide +kernel)
    (by decide +kernel)
  revert hsame
  decide

/-- **A payload's start passes for the end of the actor, and a v1 row for a chain event.** -/
theorem fields_smuggled : (¬ ∀ m m' : Signed, m.Supplied → m'.Supplied → m.canonical = m'.canonical →
      m.normal = m'.normal) ∧
    envelopedRow.canonical = smuggledRow.canonical ∧ envelopedRow.normal ≠ smuggledRow.normal ∧
    disguisedRow.canonical = disguisedEvent.canonical := by
  have hbytes : envelopedRow.canonical = smuggledRow.canonical := by decide +kernel
  have hne : envelopedRow.normal ≠ smuggledRow.normal := by decide +kernel
  exact ⟨fun hall => hne (hall _ _ (by decide +kernel) (by decide +kernel) hbytes), hbytes, hne, by decide +kernel⟩

end Execlaw
