import Mathlib.Algebra.GroupWithZero.Nat
import Mathlib.Data.List.Infix
/-!
# Utf8Text — texts addressed by bytes

A text is the list of its characters; its positions are byte offsets.  A slice at an offset inside a character has no
value (`sliceFrom`, `sliceTo`), so a function that always has one never cut a character in two.
-/
namespace Utf8Text

def size (t : List Char) : Nat := (t.map Char.utf8Size).sum

def sliceFrom : List Char → Nat → Option (List Char)
  | t, 0 => some t
  | [], _ + 1 => none
  | c :: t, n + 1 => if c.utf8Size ≤ n + 1 then sliceFrom t (n + 1 - c.utf8Size) else none

def sliceTo (t : List Char) (n : Nat) : Option (List Char) := (sliceFrom t n).map fun s => t.take (t.length - s.length)

def slice (t : List Char) (n m : Nat) : Option (List Char) :=
  if n ≤ m then (sliceFrom t n).bind (sliceTo · (m - n)) else none

def isCharBoundary (t : List Char) (n : Nat) : Bool := (sliceFrom t n).isSome

/-- `str::find`: where the first occurrence begins. -/
def find (pat : List Char) : List Char → Option Nat
  | [] => if pat = [] then some 0 else none
  | c :: t => if pat <+: c :: t then some 0 else (find pat t).map (c.utf8Size + ·)

def toAsciiLowercase (t : List Char) : List Char := t.map Char.toLower

variable {t p s pat : List Char} {n : Nat}

/-! ## Sizes -/

@[simp] theorem size_nil : size [] = 0 := rfl

@[simp] theorem size_cons (c : Char) (t : List Char) : size (c :: t) = c.utf8Size + size t := by simp [size]

@[simp] theorem size_append (p s : List Char) : size (p ++ s) = size p + size s := by simp [size]

theorem length_le_size : ∀ t : List Char, t.length ≤ size t
  | [] => le_rfl
  | c :: t => by
    have hc := c.utf8Size_pos
    have ht := length_le_size t
    simp; omega

theorem size_pos (h : t ≠ []) : 0 < size t :=
  (List.length_pos_iff.2 h).trans_le (length_le_size t)

theorem utf8Size_toLower (c : Char) : c.toLower.utf8Size = c.utf8Size := by
  unfold Char.toLower
  split
  · rename_i h
    have hsmall : ∀ {v : UInt32}, v.toNat ≤ 127 → v ≤ 127 := fun h => h
    have hlo : 65 ≤ c.val.toNat := h.1
    have hhi : c.val.toNat ≤ 90 := h.2
    rw [Char.utf8Size_eq_one_iff.2 (hsmall (by omega : c.val.toNat ≤ 127)), Char.utf8Size_eq_one_iff]
    refine hsmall ?_
    show (c.val + 32).toNat ≤ 127
    have h32 : (32 : UInt32).toNat = 32 := rfl
    rw [UInt32.toNat_add]
    omega
  · rfl

@[simp] theorem size_toAsciiLowercase (t : List Char) : size (toAsciiLowercase t) = size t := by
  simp [size, toAsciiLowercase, Function.comp_def, utf8Size_toLower]

@[simp] theorem toAsciiLowercase_append (p s : List Char) :
    toAsciiLowercase (p ++ s) = toAsciiLowercase p ++ toAsciiLowercase s := List.map_append

@[simp] theorem length_toAsciiLowercase (t : List Char) : (toAsciiLowercase t).length = t.length := List.length_map _

/-! ## Slices -/

theorem sliceFrom_append : ∀ (p s : List Char), sliceFrom (p ++ s) (size p) = some s
  | [], s => by cases s <;> rfl
  | c :: p, s => by
    have hc := c.utf8Size_pos
    obtain ⟨m, hm⟩ : ∃ m, size (c :: p) = m + 1 := ⟨size (c :: p) - 1, by simp; omega⟩
    have hle : c.utf8Size ≤ m + 1 := by simp at hm; omega
    have hrest : m + 1 - c.utf8Size = size p := by simp at hm; omega
    rw [List.cons_append, hm, sliceFrom, if_pos hle, hrest, sliceFrom_append p s]

theorem sliceFrom_eq_some : ∀ {t s : List Char} {n : Nat}, sliceFrom t n = some s → ∃ p, t = p ++ s ∧ size p = n
  | t, s, 0, h => ⟨[], by simpa [sliceFrom] using h, rfl⟩
  | [], s, n + 1, h => by simp [sliceFrom] at h
  | c :: t, s, n + 1, h => by
    rw [sliceFrom] at h
    split at h
    · rename_i hle
      obtain ⟨p, rfl, hp⟩ := sliceFrom_eq_some h
      exact ⟨c :: p, rfl, by simp; omega⟩
    · cases h

theorem sliceFrom_eq_some_iff : sliceFrom t n = some s ↔ ∃ p, t = p ++ s ∧ size p = n := by
  constructor
  · exact sliceFrom_eq_some
  · rintro ⟨p, rfl, rfl⟩
    exact sliceFrom_append p s

theorem sliceTo_append (p s : List Char) : sliceTo (p ++ s) (size p) = some p := by
  simp [sliceTo, sliceFrom_append]

theorem slice_append (p q s : List Char) : slice (p ++ q ++ s) (size p) (size p + size q) = some q := by
  rw [slice, if_pos (Nat.le_add_right _ _), List.append_assoc, sliceFrom_append, Nat.add_sub_cancel_left]
  exact sliceTo_append q s

variable {c : Char}

theorem not_isCharBoundary {k : Nat} (hk : 0 < k) (hc : k < c.utf8Size) :
    ¬ isCharBoundary (p ++ c :: s) (size p + k) := by
  intro h
  obtain ⟨s', hs'⟩ := Option.isSome_iff_exists.1 h
  obtain ⟨p', hp', hsize⟩ := sliceFrom_eq_some hs'
  rcases List.append_eq_append_iff.1 hp' with ⟨r, rfl, hr⟩ | ⟨r, rfl, -⟩
  · cases r with
    | nil => simp at hsize; omega
    | cons d r =>
      obtain ⟨rfl, -⟩ := List.cons.inj hr
      simp at hsize; omega
  · simp at hsize; omega

theorem length_sliceFrom_lt (h : sliceFrom t n = some s) (hn : 0 < n) : s.length < t.length := by
  obtain ⟨p, rfl, rfl⟩ := sliceFrom_eq_some h
  have hp : p ≠ [] := by rintro rfl; simp at hn
  have := List.length_pos_iff.2 hp
  simp; omega

/-! ## Searching -/

theorem find_eq_none : ∀ {t : List Char}, find pat t = none ↔ ¬ pat <:+: t
  | [] => by by_cases h : pat = [] <;> simp [find, h]
  | c :: t => by
    rw [find]
    by_cases h : pat <+: c :: t
    · simp [h, h.isInfix]
    · simp [h, find_eq_none, List.infix_cons_iff]

theorem find_eq_some : ∀ {t : List Char} {n : Nat}, find pat t = some n →
    ∃ p s, t = p ++ pat ++ s ∧ size p = n ∧ ∀ p' s', t = p' ++ pat ++ s' → p.length ≤ p'.length
  | [], n, h => by
    by_cases hpat : pat = []
    · subst hpat
      exact ⟨[], [], rfl, by simpa [find] using h, by simp⟩
    · simp [find, hpat] at h
  | c :: t, n, h => by
    rw [find] at h
    by_cases hpre : pat <+: c :: t
    · obtain ⟨s, hs⟩ := hpre
      rw [if_pos ⟨s, hs⟩] at h
      exact ⟨[], s, hs.symm, by simpa using h, by simp⟩
    · rw [if_neg hpre] at h
      obtain ⟨m, hm, rfl⟩ := Option.map_eq_some_iff.1 h
      obtain ⟨p, s, rfl, rfl, hfirst⟩ := find_eq_some hm
      refine ⟨c :: p, s, rfl, by simp, ?_⟩
      rintro (_ | ⟨c', p'⟩) s' hp'
      · exact absurd ⟨s', by simpa using hp'.symm⟩ hpre
      · simpa using hfirst p' s' (List.cons.inj hp').2

/-! ## Bytes -/

def bytes (t : List Char) : List UInt8 := t.flatMap String.utf8EncodeChar

@[simp] theorem bytes_cons (c : Char) (t : List Char) : bytes (c :: t) = String.utf8EncodeChar c ++ bytes t := rfl

@[simp] theorem bytes_append (p s : List Char) : bytes (p ++ s) = bytes p ++ bytes s := List.flatMap_append

@[simp] theorem length_bytes : ∀ t : List Char, (bytes t).length = size t
  | [] => rfl
  | c :: t => by simp [length_bytes t]

theorem getElem?_bytes_append (p s : List Char) (k : Nat) : (bytes (p ++ s))[size p + k]? = (bytes s)[k]? := by
  rw [bytes_append, List.getElem?_append_right (by simp)]
  simp

theorem utf8EncodeChar_ascii (hc : c.toNat ≤ 127) : String.utf8EncodeChar c = [UInt8.ofNat c.toNat] := by
  have hv : c.val.toNat ≤ 0x7f := hc
  unfold String.utf8EncodeChar
  simp only [hv, if_true]
  rfl

theorem le_of_mem_utf8EncodeChar {b : UInt8} (hc : 127 < c.toNat) (hb : b ∈ String.utf8EncodeChar c) :
    128 ≤ b.toNat := by
  have hv : ¬ c.val.toNat ≤ 0x7f := by simpa using hc
  unfold String.utf8EncodeChar at hb
  simp only [hv, if_false] at hb
  split_ifs at hb <;> simp only [List.mem_cons, List.not_mem_nil, or_false] at hb
  · rcases hb with rfl | rfl <;> (rw [UInt8.toNat_ofNat']; omega)
  · rcases hb with rfl | rfl | rfl <;> (rw [UInt8.toNat_ofNat']; omega)
  · rcases hb with rfl | rfl | rfl | rfl <;> (rw [UInt8.toNat_ofNat']; omega)

theorem eq_of_ascii_byte {b : UInt8} {k : Nat} (hb : b.toNat < 128) (h : (String.utf8EncodeChar c)[k]? = some b) :
    k = 0 ∧ c.toNat = b.toNat := by
  by_cases hc : 127 < c.toNat
  · have hle := le_of_mem_utf8EncodeChar hc (List.mem_of_getElem? h)
    omega
  · have hv : c.val.toNat ≤ 0x7f := Nat.le_of_not_lt hc
    unfold String.utf8EncodeChar at h
    simp only [hv, if_true] at h
    match k with
    | 0 =>
      have hbv : UInt8.ofNat c.val.toNat = b := by simpa using h
      refine ⟨rfl, ?_⟩
      rw [← hbv, UInt8.toNat_ofNat']
      show c.val.toNat = _
      omega
    | k + 1 => simp at h

theorem exists_char_of_byte {b : UInt8} (hb : b.toNat < 128) : ∀ {t : List Char} {k : Nat},
    (bytes t)[k]? = some b → ∃ q c r, t = q ++ c :: r ∧ size q = k ∧ c.toNat = b.toNat
  | [], _, h => by cases h
  | c :: t, k, h => by
    rw [bytes_cons] at h
    by_cases hk : k < c.utf8Size
    · rw [List.getElem?_append_left (by simpa using hk)] at h
      obtain ⟨rfl, hc⟩ := eq_of_ascii_byte hb h
      exact ⟨[], c, t, rfl, rfl, hc⟩
    · rw [List.getElem?_append_right (by simpa using hk)] at h
      obtain ⟨q, c', r, rfl, hq, hc⟩ := exists_char_of_byte hb h
      rw [String.length_utf8EncodeChar] at hq
      exact ⟨c :: q, c', r, rfl, by rw [size_cons]; omega, hc⟩

end Utf8Text
