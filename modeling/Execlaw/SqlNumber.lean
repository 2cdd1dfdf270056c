import Mathlib.Algebra.Order.Ring.Int
/-!
# SqlNumber — SQLite's integer arithmetic

An `INTEGER` column holds 64 bits.  A sum that does not fit is computed in doubles, and a double that is not a 64-bit
integer is stored as it is.  Every double met here is the rounding of an integer, and is written as one.
-/
namespace Sql

/-- `i64` holds the value. -/
def fits (v : Int) : Bool := -2 ^ 63 ≤ v && v < 2 ^ 63

def roundDouble (v : Int) : Int :=
  let shift := Nat.log2 v.natAbs - 52
  let q := v.natAbs / 2 ^ shift
  let r := v.natAbs % 2 ^ shift
  let up := 2 ^ shift < 2 * r || (2 ^ shift == 2 * r && q % 2 == 1)
  v.sign * ((if up then q + 1 else q) * 2 ^ shift : Nat)

inductive Number
  | integer (v : Int)
  | real (v : Int)
deriving DecidableEq

namespace Number

def value : Number → Int
  | integer v | real v => v

def double : Number → Int
  | integer v => roundDouble v
  | real v => v

/-- `+` and `-`: on integers where the result fits, else on doubles. -/
def arith (op : Int → Int → Int) : Number → Number → Number
  | integer a, integer b =>
    if fits (op a b) then integer (op a b) else real (roundDouble (op (roundDouble a) (roundDouble b)))
  | a, b => real (roundDouble (op a.double b.double))

def add : Number → Number → Number := arith (· + ·)

def sub : Number → Number → Number := arith (· - ·)

def maxZero (x : Number) : Number := if x.value ≤ 0 then integer 0 else x

/-- Storing into a column of `INTEGER` affinity. -/
def store : Number → Number
  | integer v => integer v
  | real v => if -2 ^ 63 < v ∧ v < 2 ^ 63 - 1 then integer v else real v

@[simp] theorem store_integer (v : Int) : store (integer v) = integer v := rfl

theorem add_integer {a b : Int} (h : fits (a + b) = true) : add (integer a) (integer b) = integer (a + b) := if_pos h

theorem sub_integer {a b : Int} (h : fits (a - b) = true) : sub (integer a) (integer b) = integer (a - b) := if_pos h

theorem maxZero_integer {a : Int} (h : 0 ≤ a) : maxZero (integer a) = integer a := by
  by_cases ha : a ≤ 0
  · obtain rfl : a = 0 := by omega
    rfl
  · exact if_neg ha

theorem value_store (x : Number) : x.store.value = x.value := by
  cases x with
  | integer => rfl
  | real v =>
    rw [store]
    split <;> rfl

theorem value_maxZero (x : Number) : 0 ≤ x.maxZero.value := by
  unfold maxZero
  split
  · exact le_refl 0
  · omega

theorem roundDouble_nonneg {v : Int} (h : 0 ≤ v) : 0 ≤ roundDouble v :=
  Int.mul_nonneg (Int.sign_nonneg_iff.2 h) (Int.natCast_nonneg _)

theorem value_add {x y : Number} (hx : 0 ≤ x.value) (hy : 0 ≤ y.value) : 0 ≤ (add x y).value := by
  have hd : ∀ z : Number, 0 ≤ z.value → 0 ≤ z.double := by
    intro z hz
    cases z with
    | integer => exact roundDouble_nonneg hz
    | real => exact hz
  cases x with
  | integer a =>
    cases y with
    | integer b =>
      show 0 ≤ (if fits (a + b) then integer (a + b) else real (roundDouble (roundDouble a + roundDouble b))).value
      split
      · exact Int.add_nonneg hx hy
      · exact roundDouble_nonneg (Int.add_nonneg (roundDouble_nonneg hx) (roundDouble_nonneg hy))
    | real b => exact roundDouble_nonneg (Int.add_nonneg (roundDouble_nonneg hx) hy)
  | real a => exact roundDouble_nonneg (Int.add_nonneg hx (hd y hy))

end Number
end Sql
