import Execlaw.Utf8Text
/-!
# Utf8Lossy — reading bytes that need not be UTF-8

`fromUtf8Lossy` is `String::from_utf8_lossy`: one U+FFFD stands for each longest beginning of a character that breaks
off.  It is a machine fed byte by byte.  On the bytes of a text it returns the text (`fromUtf8Lossy_bytes`).
-/
namespace Utf8Text

structure Begun where
  bits : Nat
  need : Nat
  low : Nat
  high : Nat

def lead (b : Nat) : Option Begun :=
  if b < 0x80 then some ⟨b, 0, 0x80, 0xBF⟩
  else if b < 0xC2 then none
  else if b < 0xE0 then some ⟨b - 0xC0, 1, 0x80, 0xBF⟩
  -- no overlong form, no surrogate
  else if b < 0xF0 then some ⟨b - 0xE0, 2, if b = 0xE0 then 0xA0 else 0x80, if b = 0xED then 0x9F else 0xBF⟩
  else if b < 0xF5 then some ⟨b - 0xF0, 3, if b = 0xF0 then 0x90 else 0x80, if b = 0xF4 then 0x8F else 0xBF⟩
  else none

def settle (g : Begun) : List Char × Option Begun :=
  if g.need = 0 then ([Char.ofNat g.bits], none) else ([], some g)

def first (b : Nat) : List Char × Option Begun := (lead b).elim (['\uFFFD'], none) settle

def feed (st : Option Begun) (b : Nat) : List Char × Option Begun :=
  match st with
  | none => first b
  | some g =>
    if g.low ≤ b ∧ b ≤ g.high then settle ⟨g.bits * 64 + (b - 0x80), g.need - 1, 0x80, 0xBF⟩
    else ('\uFFFD' :: (first b).1, (first b).2)

def decodeFrom : Option Begun → List UInt8 → List Char
  | none, [] => []
  | some _, [] => ['\uFFFD']
  | st, b :: bs => (feed st b.toNat).1 ++ decodeFrom (feed st b.toNat).2 bs

def fromUtf8Lossy (bs : List UInt8) : List Char := decodeFrom none bs

example : fromUtf8Lossy [0xE2, 0x82, 0x41, 0xE2, 0x82, 0xAC, 0x80] = ['\uFFFD', 'A', '€', '\uFFFD'] := by decide

theorem decodeFrom_cons (st : Option Begun) (b : UInt8) (bs : List UInt8) :
    decodeFrom st (b :: bs) = (feed st b.toNat).1 ++ decodeFrom (feed st b.toNat).2 bs := by
  cases st <;> rfl

variable {bits need low high b : Nat}

theorem feed_more (hlow : low ≤ b) (hhigh : b ≤ high) :
    feed (some ⟨bits, need + 2, low, high⟩) b = ([], some ⟨bits * 64 + (b - 0x80), need + 1, 0x80, 0xBF⟩) := by
  simp only [feed, settle, hlow, hhigh, and_self, if_true]
  exact if_neg (Nat.succ_ne_zero need)

theorem feed_last (hlow : low ≤ b) (hhigh : b ≤ high) :
    feed (some ⟨bits, 1, low, high⟩) b = ([Char.ofNat (bits * 64 + (b - 0x80))], none) := by
  simp only [feed, settle, hlow, hhigh, and_self, if_true, Nat.sub_self]

theorem feed_lead (h : lead b = some ⟨bits, need + 1, low, high⟩) :
    feed none b = ([], some ⟨bits, need + 1, low, high⟩) := by
  rw [feed, first, h, Option.elim_some, settle, if_neg (Nat.succ_ne_zero need)]

theorem lead_two {k : Nat} (hlow : 2 ≤ k) (hhigh : k < 32) : lead (k + 0xC0) = some ⟨k, 1, 0x80, 0xBF⟩ := by
  rw [lead, if_neg (by omega), if_neg (by omega), if_pos (by omega), Nat.add_sub_cancel]

theorem lead_three {k : Nat} (h : k < 16) :
    lead (k + 0xE0) = some ⟨k, 2, if k = 0 then 0xA0 else 0x80, if k = 13 then 0x9F else 0xBF⟩ := by
  rw [lead, if_neg (by omega), if_neg (by omega), if_neg (by omega), if_pos (by omega), Nat.add_sub_cancel]
  simp

theorem lead_four {k : Nat} (h : k < 5) :
    lead (k + 0xF0) = some ⟨k, 3, if k = 0 then 0x90 else 0x80, if k = 4 then 0x8F else 0xBF⟩ := by
  rw [lead, if_neg (by omega), if_neg (by omega), if_neg (by omega), if_neg (by omega), if_pos (by omega),
    Nat.add_sub_cancel]
  simp

theorem decodeFrom_utf8EncodeChar (c : Char) (bs : List UInt8) :
    decodeFrom none (String.utf8EncodeChar c ++ bs) = c :: decodeFrom none bs := by
  have hvalid : c.val.toNat < 0xD800 ∨ 0xDFFF < c.val.toNat ∧ c.val.toNat < 0x110000 := c.valid
  have hback : ∀ {n : Nat}, n = c.val.toNat → Char.ofNat n = c := fun h => h ▸ Char.ofNat_toNat c
  unfold String.utf8EncodeChar
  generalize c.val.toNat = v at hvalid hback ⊢
  dsimp only
  split_ifs with h1 h2 h3 <;> simp only [List.cons_append, List.nil_append, decodeFrom_cons, UInt8.toNat_ofNat']
  · have e0 : v % 2 ^ 8 = v := by omega
    have hlead : lead v = some ⟨v, 0, 0x80, 0xBF⟩ := if_pos (by omega)
    simp only [e0, feed, first, hlead, Option.elim_some, settle, if_true, hback rfl, List.cons_append, List.nil_append]
  · have e0 : (v / 64 % 0x20 + 0xc0) % 2 ^ 8 = v / 64 + 0xC0 := by omega
    have e1 : (v % 0x40 + 0x80) % 2 ^ 8 = v % 64 + 0x80 := by omega
    rw [e0, e1, feed_lead (lead_two (by omega) (by omega))]
    rw [feed_last (by omega) (by omega)]
    rw [hback (by omega), List.nil_append, List.cons_append, List.nil_append]
  · have e0 : (v / 4096 % 0x10 + 0xe0) % 2 ^ 8 = v / 4096 + 0xE0 := by omega
    have e1 : (v / 64 % 0x40 + 0x80) % 2 ^ 8 = v / 64 % 64 + 0x80 := by omega
    have e2 : (v % 0x40 + 0x80) % 2 ^ 8 = v % 64 + 0x80 := by omega
    rw [e0, e1, e2, feed_lead (lead_three (by omega))]
    -- `v` is neither short enough for two bytes nor a surrogate
    rw [feed_more (by split_ifs <;> omega) (by split_ifs <;> omega)]
    rw [feed_last (by omega) (by omega)]
    rw [hback (by omega), List.nil_append, List.nil_append, List.cons_append, List.nil_append]
  · have e0 : (v / 262144 % 0x08 + 0xf0) % 2 ^ 8 = v / 262144 + 0xF0 := by omega
    have e1 : (v / 4096 % 0x40 + 0x80) % 2 ^ 8 = v / 4096 % 64 + 0x80 := by omega
    have e2 : (v / 64 % 0x40 + 0x80) % 2 ^ 8 = v / 64 % 64 + 0x80 := by omega
    have e3 : (v % 0x40 + 0x80) % 2 ^ 8 = v % 64 + 0x80 := by omega
    rw [e0, e1, e2, e3, feed_lead (lead_four (by omega))]
    rw [feed_more (by split_ifs <;> omega) (by split_ifs <;> omega)]
    rw [feed_more (by omega) (by omega)]
    rw [feed_last (by omega) (by omega)]
    rw [hback (by omega), List.nil_append, List.nil_append, List.nil_append, List.cons_append, List.nil_append]

@[simp] theorem fromUtf8Lossy_bytes : ∀ t : List Char, fromUtf8Lossy (bytes t) = t
  | [] => rfl
  | c :: t => by
    rw [fromUtf8Lossy, bytes_cons, decodeFrom_utf8EncodeChar]
    exact congrArg (c :: ·) (fromUtf8Lossy_bytes t)

theorem bytes_inj {s t : List Char} (h : bytes s = bytes t) : s = t := by
  rw [← fromUtf8Lossy_bytes s, h, fromUtf8Lossy_bytes]

/-- `str::from_utf8`: the text whose bytes these are. -/
def fromUtf8 (bs : List UInt8) : Option (List Char) :=
  if bytes (fromUtf8Lossy bs) = bs then some (fromUtf8Lossy bs) else none

/-- `validUpTo` bytes are whole characters, the `begun` bytes behind them one that is under way. -/
def errorFrom (validUpTo begun : Nat) : Option Begun → List UInt8 → String
  | none, [] => ""
  | some _, [] => s!"incomplete utf-8 byte sequence from index {validUpTo}"
  | st, b :: bs =>
    match st.elim (lead b.toNat) fun g =>
      if g.low ≤ b.toNat ∧ b.toNat ≤ g.high then some ⟨0, g.need - 1, 0x80, 0xBF⟩ else none with
    | none => s!"invalid utf-8 sequence of {max 1 begun} bytes from index {validUpTo}"
    | some g => if g.need = 0 then errorFrom (validUpTo + begun + 1) 0 none bs else errorFrom validUpTo (begun + 1) g bs

/-- The `Utf8Error` of bytes that are no text. -/
def utf8Error (bs : List UInt8) : String := errorFrom 0 0 none bs

example : utf8Error [0x41, 0xE2, 0x82, 0x41] = "invalid utf-8 sequence of 2 bytes from index 1" := by decide

theorem fromUtf8_eq_some {bs : List UInt8} {t : List Char} : fromUtf8 bs = some t ↔ bytes t = bs := by
  rw [fromUtf8]
  constructor
  · intro h
    obtain ⟨hbytes, ht⟩ := Option.ite_none_right_eq_some.1 h
    rwa [Option.some.inj ht] at hbytes
  · rintro rfl
    rw [fromUtf8Lossy_bytes, if_pos rfl]

end Utf8Text
