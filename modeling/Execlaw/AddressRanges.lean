import Execlaw.AddressTexts
/-!
# AddressRanges — addresses by their leading bits

A range is a base address and how many of its leading bits count.  An address is a number of 32 or 128 bits, and a
range holds those that agree with the base in the bits that count (`Cidr.contains`).
-/
namespace AddressText

def Ipv4.value (address : Ipv4) : Nat :=
  ((address.a.toNat * 256 + address.b.toNat) * 256 + address.c.toNat) * 256 + address.d.toNat

def Ipv6.value (address : Ipv6) : Nat := address.segments.foldl (fun value g => value * 65536 + g.toNat) 0

/-- The addresses that begin with `length` bits of the base. -/
structure Cidr where
  base : Address
  length : Nat
deriving DecidableEq

def Cidr.contains (range : Cidr) (address : Address) : Bool :=
  match range.base, address with
  | .v4 base, .v4 address => address.value / 2 ^ (32 - range.length) == base.value / 2 ^ (32 - range.length)
  | .v6 base, .v6 address => address.value / 2 ^ (128 - range.length) == base.value / 2 ^ (128 - range.length)
  | _, _ => false

theorem and_shiftLeft (n m i : Nat) : n &&& (m <<< i) = ((n >>> i) &&& m) <<< i := by
  refine Nat.eq_of_testBit_eq fun k => ?_
  rw [Nat.testBit_and, Nat.testBit_shiftLeft, Nat.testBit_shiftLeft, Nat.testBit_and, Nat.testBit_shiftRight]
  by_cases hk : i ≤ k
  · rw [Nat.add_sub_cancel' hk]
    simp [hk]
  · simp [hk]

theorem and_mask (n bits i : Nat) (hn : n < 2 ^ (bits + i)) : n &&& ((2 ^ bits - 1) <<< i) = n / 2 ^ i * 2 ^ i := by
  have hlt : n / 2 ^ i < 2 ^ bits := by
    rw [Nat.div_lt_iff_lt_mul (Nat.two_pow_pos i), ← Nat.pow_add]
    exact hn
  rw [and_shiftLeft, Nat.and_two_pow_sub_one_eq_mod, Nat.shiftRight_eq_div_pow, Nat.mod_eq_of_lt hlt,
    Nat.shiftLeft_eq]

theorem Ipv6.exists_segments (address : Ipv6) :
    ∃ s₀ s₁ s₂ s₃ s₄ s₅ s₆ s₇, address.segments = [s₀, s₁, s₂, s₃, s₄, s₅, s₆, s₇] := by
  obtain ⟨segments, hlen⟩ := address
  match segments, hlen with
  | [s₀, s₁, s₂, s₃, s₄, s₅, s₆, s₇], _ => exact ⟨s₀, s₁, s₂, s₃, s₄, s₅, s₆, s₇, rfl⟩

end AddressText
