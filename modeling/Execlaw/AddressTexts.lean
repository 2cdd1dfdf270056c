import Mathlib.Algebra.Group.Nat.Defs
import Mathlib.Data.List.Basic
/-!
# AddressTexts — IP addresses as text

`parse` reads an address the way a standard library does: four decimal octets, or the groups of an IPv6 address, of
which one `::` may leave out zeros and the last two may stand as an IPv4 address.  What it reads ends with digits behind
a full stop or has a colon (`parse_shape`).  Four decimal octets are read back (`parse_dotted`); behind a bracket nothing
is (`parse_bracket`).
-/
namespace AddressText

structure Ipv4 where
  a : UInt8
  b : UInt8
  c : UInt8
  d : UInt8
deriving DecidableEq

structure Ipv6 where
  segments : List UInt16
  length_segments : segments.length = 8
deriving DecidableEq

inductive Address
  | v4 (address : Ipv4)
  | v6 (address : Ipv6)
deriving DecidableEq

def toDigit (radix : Nat) (c : Char) : Option Nat :=
  let value :=
    if c.isDigit then c.toNat - 48
    else if 'a' ≤ c ∧ c ≤ 'z' then c.toNat - 87
    else if 'A' ≤ c ∧ c ≤ 'Z' then c.toNat - 55
    else radix
  if value < radix then some value else none

/-- The loop over the digits: at most `maxDigits` of them. -/
def readDigits (radix maxDigits : Nat) : List Char → Nat → Nat → Option (Nat × Nat × List Char)
  | [], result, count => some (result, count, [])
  | c :: rest, result, count =>
    match toDigit radix c with
    | none => some (result, count, c :: rest)
    | some digit =>
      if maxDigits < count + 1 then none else readDigits radix maxDigits rest (result * radix + digit) (count + 1)

/-- A number below `bound` and the rest of the text. -/
def readNumber (radix maxDigits : Nat) (allowZeroPrefix : Bool) (bound : Nat) (s : List Char) :
    Option (Nat × List Char) :=
  match readDigits radix maxDigits s 0 0 with
  | none => none
  | some (result, count, rest) =>
    if count = 0 then none
    else if !allowZeroPrefix && s.head? == some '0' && decide (1 < count) then none
    else if result < bound then some (result, rest) else none

def readSeparator {T : Type} (sep : Char) (index : Nat) (inner : List Char → Option T) (s : List Char) : Option T :=
  if 0 < index then
    match s with
    | [] => none
    | c :: rest => if c = sep then inner rest else none
  else inner s

theorem readSeparator_zero {T : Type} (sep : Char) (inner : List Char → Option T) (s : List Char) :
    readSeparator sep 0 inner s = inner s := rfl

theorem readSeparator_cons {T : Type} {sep : Char} {index : Nat} (hindex : 0 < index) (inner : List Char → Option T)
    (s : List Char) : readSeparator sep index inner (sep :: s) = inner s := by
  unfold readSeparator
  rw [if_pos hindex]
  exact if_pos rfl

def readOctet : List Char → Option (Nat × List Char) := readNumber 10 3 false 256

def readIpv4 (s : List Char) : Option (Ipv4 × List Char) := do
  let (a, s) ← readSeparator '.' 0 readOctet s
  let (b, s) ← readSeparator '.' 1 readOctet s
  let (c, s) ← readSeparator '.' 2 readOctet s
  let (d, s) ← readSeparator '.' 3 readOctet s
  pure (⟨.ofNat a, .ofNat b, .ofNat c, .ofNat d⟩, s)

def Ipv4.segments (address : Ipv4) : List UInt16 :=
  [.ofNat (address.a.toNat * 256 + address.b.toNat), .ofNat (address.c.toNat * 256 + address.d.toNat)]

/-- Groups from `index` on, `remaining` of them at most; whether an IPv4 address ended them, and the rest. -/
def readGroups : Nat → Nat → List Char → List UInt16 × Bool × List Char
  | 0, _, s => ([], false, s)
  | remaining + 1, index, s =>
    match if 0 < remaining then readSeparator ':' index readIpv4 s else none with
    | some (address, rest) => (address.segments, true, rest)
    | none =>
      match readSeparator ':' index (readNumber 16 4 true 65536) s with
      | none => ([], false, s)
      | some (group, rest) =>
        let more := readGroups remaining (index + 1) rest
        (.ofNat group :: more.1, more.2)

def Ipv6.ofList (segments : List UInt16) : Ipv6 := ⟨(segments ++ List.replicate 8 0).take 8, by simp⟩

def readIpv6 (s : List Char) : Option (Ipv6 × List Char) :=
  let (head, ipv4, rest) := readGroups 8 0 s
  if head.length = 8 then some (.ofList head, rest)
  else if ipv4 then none
  else
    match rest with
    | ':' :: ':' :: rest =>
      let (tail, _, rest) := readGroups (8 - (head.length + 1)) 0 rest
      some (.ofList (head ++ List.replicate (8 - tail.length - head.length) 0 ++ tail), rest)
    | _ => none

def readAddress (s : List Char) : Option (Address × List Char) :=
  match readIpv4 s with
  | some (address, rest) => some (.v4 address, rest)
  | none => (readIpv6 s).map fun (address, rest) => (.v6 address, rest)

def parse (s : List Char) : Option Address :=
  match readAddress s with
  | some (address, []) => some address
  | _ => none

def dotted (address : Ipv4) : List Char :=
  Nat.toDigits 10 address.a.toNat ++ '.' :: (Nat.toDigits 10 address.b.toNat ++ '.' ::
    (Nat.toDigits 10 address.c.toNat ++ '.' :: Nat.toDigits 10 address.d.toNat))

/-! ## What is read -/

variable {radix maxDigits bound index n result count read : Nat} {zeroPrefix : Bool} {s rest ds : List Char} {c : Char}

theorem isDigit_of_toDigit (h : (toDigit 10 c).isSome = true) : c.isDigit = true := by
  by_contra hc
  have hlower : 'a' ≤ c → 97 ≤ c.toNat := id
  have hupper : 'A' ≤ c → 65 ≤ c.toNat := id
  simp only [toDigit, hc, if_false] at h
  by_cases ha : 'a' ≤ c ∧ c ≤ 'z'
  · have := hlower ha.1
    rw [if_pos ha, if_neg (by omega)] at h
    cases h
  · by_cases hA : 'A' ≤ c ∧ c ≤ 'Z'
    · have := hupper hA.1
      rw [if_neg ha, if_pos hA, if_neg (by omega)] at h
      cases h
    · rw [if_neg ha, if_neg hA, if_neg (Nat.lt_irrefl 10)] at h
      cases h

theorem readDigits_inv : ∀ {s : List Char} {result count : Nat},
    readDigits radix maxDigits s result count = some (n, read, rest) →
      ∃ ds, s = ds ++ rest ∧ read = count + ds.length ∧ ∀ c ∈ ds, (toDigit radix c).isSome = true
  | [], result, count, h => by
    rw [readDigits, Option.some.injEq] at h
    obtain ⟨rfl, rfl, rfl⟩ := h
    exact ⟨[], rfl, rfl, by simp⟩
  | c :: s, result, count, h => by
    rw [readDigits] at h
    cases hc : toDigit radix c with
    | none =>
      simp only [hc, Option.some.injEq] at h
      obtain ⟨rfl, rfl, rfl⟩ := h
      exact ⟨[], rfl, rfl, by simp⟩
    | some digit =>
      simp only [hc] at h
      obtain ⟨-, h⟩ := Option.ite_none_left_eq_some.1 h
      obtain ⟨ds, rfl, rfl, hds⟩ := readDigits_inv h
      exact ⟨c :: ds, rfl, by rw [List.length_cons]; omega, by simpa [hc] using hds⟩

theorem readNumber_inv (h : readNumber radix maxDigits zeroPrefix bound s = some (n, rest)) :
    ∃ ds, s = ds ++ rest ∧ ds ≠ [] ∧ ∀ c ∈ ds, (toDigit radix c).isSome = true := by
  rw [readNumber] at h
  cases hread : readDigits radix maxDigits s 0 0 with
  | none => simp [hread] at h
  | some r =>
    obtain ⟨result, read, rest'⟩ := r
    obtain ⟨ds, rfl, rfl, hds⟩ := readDigits_inv hread
    simp only [hread] at h
    obtain ⟨hcount, h⟩ := Option.ite_none_left_eq_some.1 h
    obtain ⟨-, h⟩ := Option.ite_none_left_eq_some.1 h
    obtain ⟨-, h⟩ := Option.ite_none_right_eq_some.1 h
    cases h
    exact ⟨ds, rfl, fun hnil => hcount (by rw [hnil]; rfl), hds⟩

theorem readSeparator_inv {T : Type} {sep : Char} {inner : List Char → Option T} {t : T} (hindex : 0 < index)
    (h : readSeparator sep index inner s = some t) : ∃ s', s = sep :: s' ∧ inner s' = some t := by
  unfold readSeparator at h
  rw [if_pos hindex] at h
  cases s with
  | nil => cases h
  | cons c s =>
    have hif : (if c = sep then inner s else none) = some t := h
    obtain ⟨rfl, hinner⟩ := Option.ite_none_right_eq_some.1 hif
    exact ⟨s, rfl, hinner⟩

theorem readIpv4_inv {address : Ipv4} (h : readIpv4 s = some (address, rest)) :
    ∃ pre ds, s = pre ++ '.' :: (ds ++ rest) ∧ ds ≠ [] ∧ ∀ c ∈ ds, c.isDigit = true := by
  simp only [readIpv4, Option.bind_eq_bind, Option.bind_eq_some_iff, Prod.exists] at h
  obtain ⟨a, s₁, ha, b, s₂, hb, c, s₃, hc, d, s₄, hd, h⟩ := h
  cases h
  rw [readSeparator_zero] at ha
  obtain ⟨as, rfl, -⟩ := readNumber_inv ha
  obtain ⟨s₁, rfl, hb⟩ := readSeparator_inv (by decide) hb
  obtain ⟨bs, rfl, -⟩ := readNumber_inv hb
  obtain ⟨s₂, rfl, hc⟩ := readSeparator_inv (by decide) hc
  obtain ⟨cs, rfl, -⟩ := readNumber_inv hc
  obtain ⟨s₃, rfl, hd⟩ := readSeparator_inv (by decide) hd
  obtain ⟨ds, rfl, hne, hds⟩ := readNumber_inv hd
  exact ⟨as ++ '.' :: (bs ++ '.' :: cs), ds, by simp, hne, fun c hc => isDigit_of_toDigit (hds c hc)⟩

theorem colon_mem_of_readGroups {remaining : Nat} (hindex : 0 < index)
    (h : (readGroups remaining index s).1 ≠ []) : ':' ∈ s := by
  cases remaining with
  | zero => exact absurd rfl h
  | succ remaining =>
    rw [readGroups] at h
    split at h
    · next hv4 =>
      obtain ⟨-, hv4⟩ := Option.ite_none_right_eq_some.1 hv4
      obtain ⟨s', rfl, -⟩ := readSeparator_inv hindex hv4
      simp
    · split at h
      · exact absurd rfl h
      · next hgroup =>
        obtain ⟨s', rfl, -⟩ := readSeparator_inv hindex hgroup
        simp

theorem readSeparator_suffix {T : Type} {sep : Char} {inner : List Char → Option (T × List Char)} {t : T}
    (hinner : ∀ s t rest, inner s = some (t, rest) → rest <:+ s)
    (h : readSeparator sep index inner s = some (t, rest)) : rest <:+ s := by
  by_cases hindex : 0 < index
  · obtain ⟨s', rfl, hread⟩ := readSeparator_inv hindex h
    exact (hinner _ _ _ hread).trans (List.suffix_cons _ _)
  · unfold readSeparator at h
    rw [if_neg hindex] at h
    exact hinner _ _ _ h

theorem readGroups_suffix : ∀ (remaining index : Nat) (s : List Char), (readGroups remaining index s).2.2 <:+ s
  | 0, _, s => List.suffix_refl s
  | remaining + 1, index, s => by
    rw [readGroups]
    split
    · next hv4 =>
      obtain ⟨-, hv4⟩ := Option.ite_none_right_eq_some.1 hv4
      refine readSeparator_suffix (fun s t rest h => ?_) hv4
      obtain ⟨pre, ds, rfl, -⟩ := readIpv4_inv h
      exact ⟨pre ++ '.' :: ds, by simp⟩
    · split
      · exact List.suffix_refl s
      · next hgroup =>
        have hrest := readSeparator_suffix (fun s t rest h => by
          obtain ⟨ds, rfl, -⟩ := readNumber_inv h
          exact List.suffix_append _ _) hgroup
        exact (readGroups_suffix remaining (index + 1) _).trans hrest

theorem colon_mem_of_readIpv6 {address : Ipv6} (h : readIpv6 s = some (address, rest)) : ':' ∈ s := by
  rw [readIpv6] at h
  have hsuffix := readGroups_suffix 8 0 s
  by_cases hfull : (readGroups 8 0 s).1.length = 8
  · -- eight groups: all but the first stand behind a colon
    rw [readGroups] at hfull
    split at hfull
    · cases hfull
    · split at hfull
      · cases hfull
      · next hgroup =>
        have hcolon := colon_mem_of_readGroups (Nat.zero_lt_succ 0 : 0 < 0 + 1)
          (List.ne_nil_of_length_eq_add_one (Nat.succ.inj hfull))
        obtain ⟨ds, rfl, -⟩ := readNumber_inv hgroup
        exact List.mem_append_right _ hcolon
  · simp only [hfull, if_false] at h
    obtain ⟨-, h⟩ := Option.ite_none_left_eq_some.1 h
    split at h
    · next hcolons => exact hsuffix.subset (hcolons ▸ by simp)
    · cases h

theorem parse_shape {address : Address} (h : parse s = some address) :
    (∃ pre ds, s = pre ++ '.' :: ds ∧ ds ≠ [] ∧ ∀ c ∈ ds, c.isDigit = true) ∨ ':' ∈ s := by
  rw [parse] at h
  split at h
  · next hread =>
    rw [readAddress] at hread
    split at hread
    · next hv4 =>
      cases hread
      obtain ⟨pre, ds, rfl, hds⟩ := readIpv4_inv hv4
      exact .inl ⟨pre, ds, by simp, hds⟩
    · obtain ⟨⟨address', rest⟩, hv6, -⟩ := Option.map_eq_some_iff.1 hread
      exact .inr (colon_mem_of_readIpv6 hv6)
  · cases h

theorem parse_bracket (s : List Char) : parse ('[' :: s) = none := rfl

/-! ## What is read back -/

def digitsValue (radix : Nat) (ds : List Char) (result : Nat) : Nat :=
  ds.foldl (fun result c => result * radix + (toDigit radix c).getD 0) result

theorem readDigits_append (hrest : rest.head?.bind (toDigit radix) = none) : ∀ (ds : List Char) (result count : Nat),
    (∀ c ∈ ds, (toDigit radix c).isSome = true) → count + ds.length ≤ maxDigits →
      readDigits radix maxDigits (ds ++ rest) result count = some (digitsValue radix ds result, count + ds.length, rest)
  | [], result, count, _, _ => by
    cases rest with
    | nil => rfl
    | cons c rest =>
      have hc : toDigit radix c = none := hrest
      rw [List.nil_append, readDigits, hc]
      rfl
  | c :: ds, result, count, hds, hlen => by
    rw [List.length_cons] at hlen
    obtain ⟨digit, hdigit⟩ := Option.isSome_iff_exists.1 (hds c (by simp))
    have ih := readDigits_append hrest ds (result * radix + digit) (count + 1)
      (fun c hc => hds c (by simp [hc])) (by omega)
    rw [List.cons_append, readDigits, hdigit]
    simp only
    rw [if_neg (by omega), ih, digitsValue, digitsValue, List.foldl_cons, hdigit, Option.getD_some, List.length_cons,
      Nat.add_assoc, Nat.add_comm 1]

theorem mem_toDigits (hradix : 1 < radix) (n : Nat) : ∀ c ∈ Nat.toDigits radix n, ∃ d < radix, c = d.digitChar := by
  induction n using Nat.strongRecOn with
  | ind n ih =>
    intro c hc
    rw [Nat.toDigits_eq_if hradix] at hc
    by_cases hn : n < radix
    · rw [if_pos hn, List.mem_singleton] at hc
      exact ⟨n, hn, hc⟩
    · rw [if_neg hn, List.mem_append, List.mem_singleton] at hc
      rcases hc with hc | rfl
      · exact ih (n / radix) (Nat.div_lt_self (by omega) hradix) c hc
      · exact ⟨n % radix, Nat.mod_lt n (by omega), rfl⟩

section Radix

variable (hradix : 1 < radix) (hdigits : ∀ d < radix, toDigit radix d.digitChar = some d)
include hradix hdigits

theorem digitsValue_toDigits (n : Nat) : digitsValue radix (Nat.toDigits radix n) 0 = n := by
  induction n using Nat.strongRecOn with
  | ind n ih =>
    have hlast := hdigits (n % radix) (Nat.mod_lt n (by omega))
    rw [Nat.toDigits_eq_if hradix]
    by_cases hn : n < radix
    · rw [if_pos hn]
      simp [digitsValue, hdigits n hn]
    · have hdiv := ih (n / radix) (Nat.div_lt_self (by omega) hradix)
      rw [digitsValue] at hdiv
      rw [if_neg hn, digitsValue, List.foldl_append, hdiv, List.foldl_cons, List.foldl_nil, hlast, Option.getD_some,
        Nat.div_add_mod']

theorem toDigit_of_mem_toDigits (n : Nat) : ∀ c ∈ Nat.toDigits radix n, (toDigit radix c).isSome = true := by
  intro c hc
  obtain ⟨d, hd, rfl⟩ := mem_toDigits hradix n c hc
  rw [hdigits d hd]
  rfl

theorem head_toDigits_ne_zero (n : Nat) (hn : 0 < n) : (Nat.toDigits radix n).head? ≠ some '0' := by
  induction n using Nat.strongRecOn with
  | ind n ih =>
    rw [Nat.toDigits_eq_if hradix]
    by_cases hlt : n < radix
    · rw [if_pos hlt]
      intro hhead
      have hzero : Nat.digitChar n = Nat.digitChar 0 := Option.some.inj hhead
      have hsome := hdigits n hlt
      rw [hzero, hdigits 0 (by omega)] at hsome
      have := Option.some.inj hsome
      omega
    · have hdiv := ih (n / radix) (Nat.div_lt_self hn hradix) (Nat.div_pos (by omega) (by omega))
      rwa [if_neg hlt, List.head?_append_of_ne_nil _ Nat.toDigits_ne_nil]

theorem readNumber_toDigits (hrest : rest.head?.bind (toDigit radix) = none) (hmax : 0 < maxDigits)
    (hlen : n < radix ^ maxDigits) (hbound : n < bound) :
    readNumber radix maxDigits zeroPrefix bound (Nat.toDigits radix n ++ rest) = some (n, rest) := by
  have hdigitsLen : 0 + (Nat.toDigits radix n).length ≤ maxDigits := by
    rw [Nat.zero_add]
    exact (Nat.length_toDigits_le_iff hradix hmax).2 hlen
  have hread := readDigits_append hrest _ 0 0 (toDigit_of_mem_toDigits hradix hdigits n) hdigitsLen
  rw [digitsValue_toDigits hradix hdigits, Nat.zero_add] at hread
  have hpos := Nat.length_toDigits_pos (b := radix) (n := n)
  rw [readNumber, hread]
  simp only
  rw [if_neg (by omega), if_neg, if_pos hbound]
  rw [List.head?_append_of_ne_nil _ Nat.toDigits_ne_nil]
  rcases Nat.eq_zero_or_pos n with rfl | hn
  · simp
  · simp [head_toDigits_ne_zero hradix hdigits n hn]

end Radix

theorem readOctet_toDigits {b : UInt8} (hrest : rest.head?.bind (toDigit 10) = none) :
    readOctet (Nat.toDigits 10 b.toNat ++ rest) = some (b.toNat, rest) := by
  have hb := b.toNat_lt
  exact readNumber_toDigits (by decide) (by decide) hrest (by decide) (by omega) (by omega)

theorem readIpv4_dotted (address : Ipv4) : readIpv4 (dotted address) = some (address, []) := by
  have hlast : readOctet (Nat.toDigits 10 address.d.toNat) = some (address.d.toNat, []) := by
    rw [← List.append_nil (Nat.toDigits 10 address.d.toNat)]
    exact readOctet_toDigits rfl
  rw [readIpv4, dotted, readSeparator_zero, readOctet_toDigits rfl]
  simp only [Option.bind_eq_bind, Option.bind_some]
  rw [readSeparator_cons (by decide), readOctet_toDigits rfl]
  simp only [Option.bind_some]
  rw [readSeparator_cons (by decide), readOctet_toDigits rfl]
  simp only [Option.bind_some]
  rw [readSeparator_cons (by decide), hlast]
  simp

theorem mem_dotted {address : Ipv4} (h : c ∈ dotted address) : c = '.' ∨ ∃ d < 10, c = d.digitChar := by
  have hoctet : ∀ n, c ∈ Nat.toDigits 10 n → c = '.' ∨ ∃ d < 10, c = d.digitChar := fun n h =>
    .inr (mem_toDigits (by decide) n c h)
  simp only [dotted, List.mem_append, List.mem_cons] at h
  rcases h with h | h | h | h | h | h | h
  · exact hoctet _ h
  · exact .inl h
  · exact hoctet _ h
  · exact .inl h
  · exact hoctet _ h
  · exact .inl h
  · exact hoctet _ h

theorem parse_dotted (address : Ipv4) : parse (dotted address) = some (.v4 address) := by
  rw [parse, readAddress, readIpv4_dotted]

/-! ## IPv6 addresses as text -/

def zeros (segments : List UInt16) : Nat := (segments.takeWhile (· == 0)).length

/-- The first of the longest runs of zeros from `index` on, by where it begins and how long it is. -/
def longestZeros : List UInt16 → Nat → Nat × Nat → Nat × Nat
  | [], _, longest => longest
  | g :: gs, index, longest =>
    longestZeros gs (index + 1) (if longest.2 < zeros (g :: gs) then (index, zeros (g :: gs)) else longest)

def colonGroups (groups : List UInt16) : List Char := groups.flatMap fun g => ':' :: Nat.toDigits 16 g.toNat

def groupsText (groups : List UInt16) : List Char := (colonGroups groups).drop 1

def ipv6Text (address : Ipv6) : List Char :=
  let (start, length) := longestZeros address.segments 0 (0, 0)
  if length < 2 then groupsText address.segments
  else groupsText (address.segments.take start) ++ ':' :: ':' :: groupsText (address.segments.drop (start + length))

theorem mem_colonGroups {groups : List UInt16} (h : c ∈ colonGroups groups) : c = ':' ∨ ∃ d < 16, c = d.digitChar := by
  obtain ⟨g, -, hg⟩ := List.mem_flatMap.1 h
  exact (List.mem_cons.1 hg).imp_right (mem_toDigits (by decide) g.toNat c)

theorem mem_ipv6Text {address : Ipv6} (h : c ∈ ipv6Text address) : c = ':' ∨ ∃ d < 16, c = d.digitChar := by
  have hgroups : ∀ groups, c ∈ groupsText groups → c = ':' ∨ ∃ d < 16, c = d.digitChar := fun groups h =>
    mem_colonGroups (List.mem_of_mem_drop h)
  rw [ipv6Text] at h
  simp only at h
  split at h
  · exact hgroups _ h
  · rcases List.mem_append.1 h with h | h
    · exact hgroups _ h
    · rcases List.mem_cons.1 h with h | h
      · exact .inl h
      · exact (List.mem_cons.1 h).elim .inl (hgroups _)

end AddressText
