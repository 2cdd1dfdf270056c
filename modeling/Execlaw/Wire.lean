import Mathlib.Algebra.Group.Int.Defs
import Mathlib.Algebra.Group.Nat.Defs
/-!
# Wire — byte encodings and when they can be read back

Fixed-width little-endian words, length-prefixed lists of byte strings, byte strings cut at a separator, and hex.  Each
encoding comes with the one fact its users need: on the values that fit, equal bytes come from equal values.  The
separator is the exception: `a ++ z :: p` determines where it is cut only when the number of separators in `a` is
known (`cut_unique`).
-/
namespace Wire

/-- The `w` little-endian bytes of `n`; what does not fit is dropped. -/
def leBytes : Nat → Nat → List UInt8
  | 0, _ => []
  | w + 1, n => UInt8.ofNat (n % 256) :: leBytes w (n / 256)

def ofLeBytes : List UInt8 → Nat
  | [] => 0
  | b :: bs => b.toNat + 256 * ofLeBytes bs

@[simp] theorem length_leBytes : ∀ (w n : Nat), (leBytes w n).length = w
  | 0, _ => rfl
  | w + 1, n => by rw [leBytes, List.length_cons, length_leBytes w]

theorem ofLeBytes_leBytes : ∀ (w n : Nat), ofLeBytes (leBytes w n) = n % 256 ^ w
  | 0, n => by simp [leBytes, ofLeBytes, Nat.mod_one]
  | w + 1, n => by
    have hb : (UInt8.ofNat (n % 256)).toNat = n % 256 := by
      rw [UInt8.toNat_ofNat']
      exact Nat.mod_eq_of_lt (by omega)
    rw [leBytes, ofLeBytes, hb, ofLeBytes_leBytes w, Nat.pow_succ', Nat.mod_mul]

theorem leBytes_inj {w n m : Nat} (hn : n < 256 ^ w) (hm : m < 256 ^ w) (h : leBytes w n = leBytes w m) : n = m := by
  have := congrArg ofLeBytes h
  rwa [ofLeBytes_leBytes, ofLeBytes_leBytes, Nat.mod_eq_of_lt hn, Nat.mod_eq_of_lt hm] at this

def leU64 (n : Nat) : List UInt8 := leBytes 8 n

@[simp] theorem length_leU64 (n : Nat) : (leU64 n).length = 8 := length_leBytes 8 n

theorem leU64_inj {n m : Nat} (hn : n < 2 ^ 64) (hm : m < 2 ^ 64) (h : leU64 n = leU64 m) : n = m :=
  leBytes_inj (w := 8) hn hm h

def I64 (x : Int) : Prop := -(2 : Int) ^ 63 ≤ x ∧ x < (2 : Int) ^ 63

instance (x : Int) : Decidable (I64 x) := inferInstanceAs (Decidable (_ ∧ _))

/-- `i64::to_le_bytes`: two's complement. -/
def leI64 (x : Int) : List UInt8 := leBytes 8 (x % (2 : Int) ^ 64).toNat

@[simp] theorem length_leI64 (x : Int) : (leI64 x).length = 8 := length_leBytes 8 _

theorem leI64_inj {x y : Int} (hx : I64 x) (hy : I64 y) (h : leI64 x = leI64 y) : x = y := by
  unfold I64 at hx hy
  have hlt : ∀ z : Int, (z % (2 : Int) ^ 64).toNat < 256 ^ 8 := by
    intro z
    have := Int.emod_lt_of_pos z (show (0 : Int) < 2 ^ 64 by decide)
    have := Int.emod_nonneg z (show (2 : Int) ^ 64 ≠ 0 by decide)
    omega
  have := leBytes_inj (hlt x) (hlt y) h
  omega

/-! ## Length-prefixed lists -/

def framed : List (List UInt8) → List UInt8
  | [] => []
  | r :: rs => leU64 r.length ++ (r ++ framed rs)

theorem framed_inj : ∀ (xs ys : List (List UInt8)), xs.length = ys.length → (framed xs).length < 2 ^ 64 →
    framed xs = framed ys → xs = ys
  | [], [], _, _, _ => rfl
  | [], _ :: _, hl, _, _ => by simp at hl
  | _ :: _, [], hl, _, _ => by simp at hl
  | x :: xs, y :: ys, hl, hlt, h => by
    have hlty : (framed (y :: ys)).length < 2 ^ 64 := h ▸ hlt
    rw [framed, framed] at h
    rw [framed] at hlt hlty
    simp only [List.length_append, length_leU64] at hlt hlty
    obtain ⟨hlen, hrest⟩ := List.append_inj h (by simp)
    have hxy : x.length = y.length := leU64_inj (by omega) (by omega) hlen
    obtain ⟨rfl, htl⟩ := List.append_inj hrest hxy
    rw [framed_inj xs ys (by simpa using hl) (by omega) htl]

/-! ## Separators -/

/-- **Where a separator cuts**: two readings of the same bytes agree once the parts before the cut hold equally many
separators. -/
theorem cut_unique {α : Type} [DecidableEq α] (z : α) : ∀ (a b p q : List α), a.count z = b.count z →
    a ++ z :: p = b ++ z :: q → a = b ∧ p = q
  | [], [], _, _, _, h => ⟨rfl, by simpa using h⟩
  | [], y :: b, p, q, hc, h => by
    simp only [List.nil_append, List.cons_append, List.cons.injEq] at h
    rw [← h.1] at hc
    simp at hc
  | x :: a, [], p, q, hc, h => by
    simp only [List.nil_append, List.cons_append, List.cons.injEq] at h
    rw [h.1] at hc
    simp at hc
  | x :: a, y :: b, p, q, hc, h => by
    simp only [List.cons_append, List.cons.injEq] at h
    obtain ⟨rfl, h⟩ := h
    have hc' : a.count z = b.count z := by
      by_cases hx : x = z
      · subst hx
        simpa using hc
      · simpa [List.count_cons_of_ne hx] using hc
    obtain ⟨rfl, rfl⟩ := cut_unique z a b p q hc' h
    exact ⟨rfl, rfl⟩

theorem cut_last {α : Type} [DecidableEq α] {z : α} {a b p q : List α} (hp : z ∉ p) (hq : z ∉ q)
    (h : a ++ z :: p = b ++ z :: q) : a = b ∧ p = q := by
  have hrev : p.reverse ++ z :: a.reverse = q.reverse ++ z :: b.reverse := by
    simpa using congrArg List.reverse h
  have hcount : p.reverse.count z = q.reverse.count z := by
    rw [List.count_eq_zero_of_not_mem (by simpa using hp), List.count_eq_zero_of_not_mem (by simpa using hq)]
  obtain ⟨hpq, hab⟩ := cut_unique z _ _ _ _ hcount hrev
  exact ⟨List.reverse_inj.1 hab, List.reverse_inj.1 hpq⟩

/-! ## Hex -/

def hexDigit (n : Nat) : Char := "0123456789abcdef".toList.getD n '0'

def hexEncode (bytes : List UInt8) : List Char :=
  bytes.flatMap fun b => [hexDigit (b.toNat / 16), hexDigit (b.toNat % 16)]

theorem hexDigit_inj {n m : Nat} (hn : n < 16) (hm : m < 16) (h : hexDigit n = hexDigit m) : n = m := by
  have hall : ∀ i j : Fin 16, hexDigit i = hexDigit j → i = j := by decide
  exact Fin.mk.inj_iff.1 (hall ⟨n, hn⟩ ⟨m, hm⟩ h)

theorem hexEncode_inj : ∀ {a b : List UInt8}, hexEncode a = hexEncode b → a = b
  | [], [], _ => rfl
  | [], _ :: _, h => by simp [hexEncode] at h
  | _ :: _, [], h => by simp [hexEncode] at h
  | x :: a, y :: b, h => by
    simp only [hexEncode, List.flatMap_cons, List.cons_append, List.nil_append, List.cons.injEq] at h
    have hx := UInt8.toNat_lt x
    have hy := UInt8.toNat_lt y
    have hhi := hexDigit_inj (by omega) (by omega) h.1
    have hlo := hexDigit_inj (by omega) (by omega) h.2.1
    rw [UInt8.toNat_inj.1 (by omega : x.toNat = y.toNat), hexEncode_inj h.2.2]

/-! ## Text -/

/-- The bytes of a text, as `str::as_bytes` returns them. -/
def utf8 (s : String) : List UInt8 := s.toByteArray.data.toList

theorem utf8_inj {s t : String} (h : utf8 s = utf8 t) : s = t :=
  String.toByteArray_inj.1 (ByteArray.ext (Array.ext' h))

end Wire
