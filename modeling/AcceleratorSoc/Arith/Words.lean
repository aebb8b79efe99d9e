import Mathlib.Tactic.Linarith
import Mathlib.Tactic.Positivity
import Mathlib.Tactic.Ring
import Mathlib.Tactic.SplitIfs

/-!
# Words as numbers

Concatenations and slices of bit vectors, read as unsigned or as signed numbers.

Main results:

- Theorems {lit}`emod_mul`, {lit}`emod_mul_ediv`: remainders by a product.
- Theorem {lit}`toInt_append_of_pos`: a concatenation is signed by its high part.
- Theorem {lit}`toInt_signBit_append`: repeating the sign bit keeps the value.
- Theorem {lit}`toInt_setWidth_of_short`: dropping high bits keeps a short value.
- Theorems {lit}`toInt_add_of_short`, {lit}`toInt_sub_of_short`: sums and differences that
  do not overflow.
-/

namespace AcceleratorSoc
namespace Arith

/-- A remainder by a product, one factor after the other. -/
theorem emod_mul (x : Int) {m c : Int} (hm : 0 < m) (hc : 0 < c) :
    x % (m * c) = x % m + m * (x / m % c) := by
  have houter := Int.emod_add_mul_ediv x m
  have hinner := Int.emod_add_mul_ediv (x / m) c
  have hlow := Int.emod_nonneg x hm.ne'
  have hlow' := Int.emod_lt_of_pos x hm
  have hhigh := Int.emod_nonneg (x / m) hc.ne'
  have hhigh' := Int.emod_lt_of_pos (x / m) hc
  have hsplit : x = x % m + m * (x / m % c) + m * c * (x / m / c) := by
    calc
      x = x % m + m * (x / m) := houter.symm
      _ = x % m + m * (x / m % c + c * (x / m / c)) := by rw [hinner]
      _ = x % m + m * (x / m % c) + m * c * (x / m / c) := by ring
  conv_lhs => rw [hsplit]
  rw [Int.add_mul_emod_self_left]
  apply Int.emod_eq_of_lt
  · positivity
  · nlinarith

/-- A quotient of a remainder. -/
theorem emod_mul_ediv (x : Int) {m c : Int} (hm : 0 < m) (hc : 0 < c) :
    x % (m * c) / m = x / m % c := by
  rw [emod_mul x hm hc, Int.add_mul_ediv_left _ _ hm.ne', Int.ediv_eq_zero_of_lt
    (Int.emod_nonneg x hm.ne') (Int.emod_lt_of_pos x hm), zero_add]

variable {v w : Nat}

/-- A concatenation is the sum of its weighted parts. -/
theorem toNat_append_eq (x : BitVec v) (y : BitVec w) :
    (x ++ y).toNat = 2 ^ w * x.toNat + y.toNat := by
  rw [BitVec.toNat_append, ← Nat.shiftLeft_add_eq_or_of_lt y.isLt, Nat.shiftLeft_eq, mul_comm]

/-- An extract is a quotient, cut to its length. -/
theorem toNat_extract (x : BitVec w) (start len : Nat) :
    (x.extractLsb' start len).toNat = x.toNat / 2 ^ start % 2 ^ len := by
  rw [BitVec.extractLsb'_toNat, Nat.shiftRight_eq_div_pow]

/-- A bit as a number. -/
theorem toNat_getLsbD (x : BitVec w) (i : Nat) :
    (x.getLsbD i).toNat = x.toNat / 2 ^ i % 2 := by
  rw [BitVec.getLsbD, Nat.toNat_testBit]

/-- Wires are told apart by their numbers. -/
theorem bool_eq_of_toNat {a b : Bool} (h : a.toNat = b.toNat) : a = b := by
  cases a <;> cases b <;> simp_all

/-- A concatenation is signed by its high part. -/
theorem toInt_append_of_pos (x : BitVec v) (y : BitVec w) (hv : 0 < v) :
    (x ++ y).toInt = 2 ^ w * x.toInt + y.toNat := by
  rw [BitVec.toInt_append, if_neg (by simp; omega)]

/-- A single bit as a signed number. -/
theorem toInt_ofBool_eq (b : Bool) : (BitVec.ofBool b).toInt = -(b.toNat : Int) := by
  cases b <;> rfl

/-- Repeating the sign bit keeps the value. -/
theorem toInt_signBit_append (x : BitVec w) :
    (BitVec.ofBool (x.getLsbD (w - 1)) ++ x).toInt = x.toInt := by
  rw [toInt_append_of_pos _ _ one_pos, toInt_ofBool_eq, BitVec.toInt_eq_msb_cond,
    BitVec.msb_eq_getLsbD_last]
  cases x.getLsbD (w - 1)
  · simp
  · simp
    ring

/-- Dropping high bits keeps a short value. -/
theorem toInt_setWidth_of_short (x : BitVec w) (hv : v ≤ w) (hlo : -2 ^ v ≤ 2 * x.toInt)
    (hhi : 2 * x.toInt < 2 ^ v) : (x.setWidth v).toInt = x.toInt := by
  have hdvd : ((2 ^ v : Nat) : Int) ∣ ((2 ^ w : Nat) : Int) := by
    exact_mod_cast Nat.pow_dvd_pow 2 hv
  have hmod : (x.toNat : Int) % ((2 ^ v : Nat) : Int) = x.toInt % ((2 ^ v : Nat) : Int) := by
    rw [BitVec.toInt_eq_toNat_cond]
    split_ifs
    · rfl
    · rw [Int.sub_emod, Int.emod_eq_zero_of_dvd hdvd, sub_zero, Int.emod_emod]
  rw [BitVec.toInt_setWidth, ← Int.emod_bmod, hmod, Int.emod_bmod]
  apply Int.bmod_eq_of_le_mul_two
  · push_cast
    omega
  · push_cast
    omega

/-- Addition without overflow. -/
theorem toInt_add_of_short {x y : BitVec (w + 1)} (hlo : -2 ^ w ≤ x.toInt + y.toInt)
    (hhi : x.toInt + y.toInt < 2 ^ w) : (x + y).toInt = x.toInt + y.toInt := by
  rw [BitVec.toInt_add]
  apply Int.bmod_eq_of_le_mul_two <;> push_cast [pow_succ] <;> omega

/-- Subtraction without overflow. -/
theorem toInt_sub_of_short {x y : BitVec (w + 1)} (hlo : -2 ^ w ≤ x.toInt - y.toInt)
    (hhi : x.toInt - y.toInt < 2 ^ w) : (x - y).toInt = x.toInt - y.toInt := by
  rw [BitVec.toInt_sub]
  apply Int.bmod_eq_of_le_mul_two <;> push_cast [pow_succ] <;> omega

/-- A signed number is its word modulo the word's size. -/
theorem toInt_emod_eq (x : BitVec w) : x.toInt % 2 ^ w = x.toNat := by
  have hlt := x.isLt
  have hpow : ((2 ^ w : Nat) : Int) = 2 ^ w := by
    push_cast
    rfl
  rw [BitVec.toInt_eq_toNat_cond, hpow]
  split_ifs
  · apply Int.emod_eq_of_lt <;> omega
  · rw [Int.sub_emod_right]
    apply Int.emod_eq_of_lt <;> omega

/-- A word is known by its value modulo the word's size. -/
theorem eq_ofInt {x : BitVec w} {n : Int} (h : (x.toNat : Int) = n % 2 ^ w) :
    x = BitVec.ofInt w n := by
  apply BitVec.eq_of_toNat_eq
  rw [BitVec.toNat_ofInt]
  push_cast
  rw [← h, Int.toNat_natCast]

end Arith
end AcceleratorSoc
