import Mathlib.Algebra.Group.Int.Defs
import Mathlib.Data.Int.Order.Basic
import Mathlib.Data.List.Basic
/-!
# Decimals — signed decimal numbers

`parseI64` is `str::parse::<i64>`.  It reads back the decimal text of any `i64`.
-/
namespace Execlaw

def parseI64 (s : List Char) : Option Int :=
  let (negative, digits) := match s with
    | '-' :: rest => (true, rest)
    | '+' :: rest => (false, rest)
    | _ => (false, s)
  let n : Int := digits.foldl (fun n d => 10 * n + (d.toNat - 48 : Nat)) (0 : Int)
  let n := if negative then -n else n
  if digits ≠ [] ∧ digits.all Char.isDigit ∧ -2 ^ 63 ≤ n ∧ n < 2 ^ 63 then some n else none

/-- A number of an `i64`. -/
def fitsI64 (n : Int) : Bool := decide (-2 ^ 63 ≤ n ∧ n < 2 ^ 63)

variable {n : Int}

theorem fitsI64_of_parseI64 {s : List Char} (h : parseI64 s = some n) : fitsI64 n = true := by
  unfold parseI64 at h
  obtain ⟨hif, hn⟩ := Option.ite_none_right_eq_some.1 h
  cases hn
  exact decide_eq_true hif.2.2

theorem foldl_digits (l : List Char) (init : Nat) :
    l.foldl (fun (n : Int) d => 10 * n + (d.toNat - 48 : Nat)) init = (Nat.ofDigitChars 10 l init : Nat) := by
  induction l generalizing init with
  | nil => simp
  | cons c l ih =>
    rw [List.foldl_cons, Nat.ofDigitChars_cons, ← ih]
    norm_cast

theorem digits_repr (n : Nat) : n.repr.toList ≠ [] ∧ n.repr.toList.all Char.isDigit = true ∧
    n.repr.toList.foldl (fun (n : Int) d => 10 * n + (d.toNat - 48 : Nat)) 0 = n := by
  rw [Nat.toList_repr]
  refine ⟨Nat.toDigits_ne_nil, ?_, ?_⟩
  · rw [List.all_eq_true]
    exact fun c hc => Nat.isDigit_of_mem_toDigits (by decide) (by decide) hc
  · have hfold := foldl_digits (Nat.toDigits 10 n) 0
    rw [Nat.ofDigitChars_ten_toDigits] at hfold
    exact hfold

theorem parseI64_digits {digits : List Char} (hsign : ∀ c ∈ digits, c ≠ '-' ∧ c ≠ '+') (hne : digits ≠ [])
    (hall : digits.all Char.isDigit = true) (hfit : fitsI64 n = true)
    (hn : digits.foldl (fun (n : Int) d => 10 * n + (d.toNat - 48 : Nat)) 0 = n) : parseI64 digits = some n := by
  obtain ⟨hlow, hhigh⟩ := of_decide_eq_true hfit
  cases digits with
  | nil => exact absurd rfl hne
  | cons c rest =>
    have hc := hsign c (by simp)
    unfold parseI64
    split
    next hs =>
      split at hs
      · next heq => exact absurd (List.cons.inj heq).1 hc.1
      · next heq => exact absurd (List.cons.inj heq).1 hc.2
      · cases hs
        rw [hn]
        exact if_pos ⟨hne, hall, hlow, hhigh⟩

theorem parseI64_minus {digits : List Char} (hne : digits ≠ []) (hall : digits.all Char.isDigit = true)
    (hfit : fitsI64 (-n) = true) (hn : digits.foldl (fun (n : Int) d => 10 * n + (d.toNat - 48 : Nat)) 0 = n) :
    parseI64 ('-' :: digits) = some (-n) := by
  obtain ⟨hlow, hhigh⟩ := of_decide_eq_true hfit
  simp only [parseI64, hn]
  exact if_pos ⟨hne, hall, hlow, hhigh⟩

theorem parseI64_repr (h : fitsI64 n = true) : parseI64 n.repr.toList = some n := by
  rw [Int.repr_eq_if]
  by_cases hn : 0 ≤ n
  · obtain ⟨hne, hall, hfold⟩ := digits_repr n.toNat
    rw [Int.toNat_of_nonneg hn] at hfold
    rw [if_pos hn]
    -- a digit is no sign
    refine parseI64_digits (fun c hc => ?_) hne hall h hfold
    have hdigit := List.all_eq_true.1 hall c hc
    constructor <;> rintro rfl <;> revert hdigit <;> decide
  · obtain ⟨hne, hall, hfold⟩ := digits_repr (-n).toNat
    rw [Int.toNat_of_nonneg (by omega)] at hfold
    rw [if_neg hn, String.toList_append]
    have hminus := parseI64_minus hne hall (n := -n) (by rwa [Int.neg_neg]) hfold
    rwa [Int.neg_neg] at hminus

end Execlaw
