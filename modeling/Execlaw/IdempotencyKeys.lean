import Execlaw.StagedSends
/-!
# IdempotencyKeys — the keys of outbox rows (`core/src/ids.rs`)

A key joins its parts with `:`, and a conversation may be called anything, be it by a name that ends like a key.  So
a key is read from the right: neither a decimal number nor a digest in hexadecimal digits holds a `:`
(`last_colon`), and no `i64` has as many characters as a digest.  SHA-256 is a parameter; a key holds the digest of its
scope and nothing else of it.
-/
namespace Execlaw

open Wire

abbrev Digest := List UInt8 → Tag

namespace IdempotencyKey

def mint (conversationId : String) (turnSeq : Int64) (ordinal : UInt32) : String :=
  mintKey conversationId turnSeq.toInt ordinal

def mintScoped (digest : Digest) (conversationId : String) (scope : List UInt8) (ordinal : UInt32) : String :=
  s!"{conversationId}:scope:{String.ofList (Wire.hexEncode (digest scope).bytes)}:{ordinal}"

example : mint "conv-1" 7 2 = "conv-1:7:2" := by decide

variable {digest : Digest} {c c' : String} {s s' : Int64} {scope scope' : List UInt8} {o o' : UInt32}

theorem colon_notMem_hex (bytes : List UInt8) : ':' ∉ Wire.hexEncode bytes := by
  have hdigit : ∀ n : Fin 16, ':' ≠ hexDigit n := by decide
  rw [Wire.hexEncode, List.mem_flatMap]
  rintro ⟨b, -, hb⟩
  have hlt := b.toNat_lt
  rcases List.mem_pair.1 hb with h | h
  · exact hdigit ⟨b.toNat / 16, by omega⟩ h
  · exact hdigit ⟨b.toNat % 16, by omega⟩ h

theorem length_hex (bytes : List UInt8) : (Wire.hexEncode bytes).length = 2 * bytes.length := by
  induction bytes with
  | nil => rfl
  | cons b bytes ih =>
    rw [Wire.hexEncode, List.flatMap_cons, List.length_append, ← Wire.hexEncode, ih]
    simp; omega

theorem length_i64 (s : Int64) : s.toInt.repr.toList.length ≤ 20 := by
  have hlow := s.le_toInt
  have hhigh := s.toInt_lt
  have hdigits : ∀ {n : Nat}, n < 10 ^ 19 → n.repr.toList.length ≤ 19 := by
    intro n hn
    rw [String.length_toList]
    exact (Nat.length_repr_le_iff (by decide)).2 hn
  rw [Int.repr_eq_if]
  by_cases hs : 0 ≤ s.toInt
  · rw [if_pos hs]
    exact (hdigits (by omega)).trans (by decide)
  · rw [if_neg hs, String.toList_append, List.length_append]
    exact Nat.add_le_add_left (hdigits (by omega)) 1

theorem toList_mint (c : String) (s : Int64) (o : UInt32) :
    (mint c s o).toList = (c.toList ++ ':' :: s.toInt.repr.toList) ++ ':' :: o.toNat.repr.toList := toList_mintKey _ _ _

theorem toList_mintScoped (c : String) (scope : List UInt8) (o : UInt32) : (mintScoped digest c scope o).toList =
    (c.toList ++ ":scope".toList ++ ':' :: Wire.hexEncode (digest scope).bytes) ++ ':' :: o.toNat.repr.toList := by
  simp [mintScoped, toString]

theorem last_colon {p p' f f' : List Char} (hf : ':' ∉ f) (hf' : ':' ∉ f')
    (h : (p ++ ':' :: f) ++ ':' :: o.toNat.repr.toList = (p' ++ ':' :: f') ++ ':' :: o'.toNat.repr.toList) :
    p = p' ∧ f = f' ∧ o = o' := by
  obtain ⟨h, ho⟩ := cut_last (colon_notMem_nat _) (colon_notMem_nat _) h
  obtain ⟨hp, hfield⟩ := cut_last hf hf' h
  exact ⟨hp, hfield, UInt32.toNat_inj.1 (Nat.repr_inj.1 (String.toList_inj.1 ho))⟩

theorem mint_inj (h : mint c s o = mint c' s' o') : c = c' ∧ s = s' ∧ o = o' := by
  have hlist := congrArg String.toList h
  rw [toList_mint, toList_mint] at hlist
  obtain ⟨hc, hs, ho⟩ := last_colon (colon_notMem_int _) (colon_notMem_int _) hlist
  exact ⟨String.toList_inj.1 hc, Int64.toInt_inj.1 (Int.repr_inj.1 (String.toList_inj.1 hs)), ho⟩

theorem mintScoped_inj (h : mintScoped digest c scope o = mintScoped digest c' scope' o') :
    c = c' ∧ digest scope = digest scope' ∧ o = o' := by
  have hlist := congrArg String.toList h
  rw [toList_mintScoped, toList_mintScoped] at hlist
  obtain ⟨hc, hdigest, ho⟩ := last_colon (colon_notMem_hex _) (colon_notMem_hex _) hlist
  exact ⟨String.toList_inj.1 (List.append_cancel_right hc), Tag.ext_bytes (Wire.hexEncode_inj hdigest), ho⟩

theorem mint_ne_mintScoped : mint c s o ≠ mintScoped digest c' scope o' := by
  intro h
  have hlist := congrArg String.toList h
  rw [toList_mint, toList_mintScoped] at hlist
  obtain ⟨-, hfield, -⟩ := last_colon (colon_notMem_int _) (colon_notMem_hex _) hlist
  have hlen := length_i64 s
  rw [hfield, length_hex, (digest scope).len] at hlen
  omega

/-- **Outbox keys never collide**: a minted key fixes its conversation, turn sequence and ordinal, a scoped one its
conversation, the digest of its scope and its ordinal, and no key is of both kinds. -/
theorem keys_never_collide (digest : Digest) :
    (∀ c s o c' s' o', mint c s o = mint c' s' o' ↔ (c, s, o) = (c', s', o')) ∧
      (∀ c scope o c' scope' o', mintScoped digest c scope o = mintScoped digest c' scope' o' ↔
        (c, digest scope, o) = (c', digest scope', o')) ∧
      ∀ c s o c' scope o', mint c s o ≠ mintScoped digest c' scope o' := by
  refine ⟨fun c s o c' s' o' => ⟨fun h => ?_, fun h => ?_⟩, fun c scope o c' scope' o' => ⟨fun h => ?_, fun h => ?_⟩,
    fun _ _ _ _ _ _ => mint_ne_mintScoped⟩
  · obtain ⟨rfl, rfl, rfl⟩ := mint_inj h
    rfl
  · cases h
    rfl
  · obtain ⟨rfl, hdigest, rfl⟩ := mintScoped_inj h
    rw [hdigest]
  · simp only [Prod.mk.injEq] at h
    obtain ⟨rfl, hdigest, rfl⟩ := h
    rw [mintScoped, mintScoped, hdigest]

end IdempotencyKey

end Execlaw
