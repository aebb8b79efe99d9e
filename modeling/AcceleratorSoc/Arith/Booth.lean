import AcceleratorSoc.Arith.Words
import Mathlib.Algebra.Order.Ring.Abs
import Mathlib.Tactic.Linarith
import Mathlib.Tactic.LinearCombination
import Mathlib.Tactic.Ring

/-!
# Radix-four Booth multiplication

A multiplier in two's complement is read two bits at a time, from the low end.  Each
pair, together with the bit below it, is a digit between minus two and two; the digits
read so far represent the multiplier's low bits as a signed number.  The partial product
is kept in two parts: the bits that are final, and a signed high part that is divided by
four after every digit.

Main results:

- Theorem {lit}`bmod_pow_succ`: one more digit extends the signed low part of the
  multiplier.
- Theorem {lit}`Partial.step`: one round of the multiplication.
- Theorem {lit}`Partial.hi_bound`: the high part stays within half the multiplicand.
- Theorem {lit}`Partial.product`: the last round completes the product.
-/

namespace AcceleratorSoc
namespace Arith
namespace Booth

/-- Value of a bit. -/
def bit (b : Bool) : Int :=
  if b then 1 else 0

/-- The digit of a bit pair and the bit below it. -/
def digit (high low below : Bool) : Int :=
  bit low + bit below - 2 * bit high

/-- Bit {lit}`i` of an integer in two's complement. -/
def testBit (x : Int) (i : Nat) : Bool :=
  x / 2 ^ i % 2 == 1

/-- A bit is the parity of a quotient. -/
theorem bit_testBit (x : Int) (i : Nat) : bit (testBit x i) = x / 2 ^ i % 2 := by
  have hcases := Int.emod_two_eq_zero_or_one (x / 2 ^ i)
  unfold bit testBit
  rcases hcases with h | h <;> simp [h]

/-- A bit is known by its value. -/
theorem eq_testBit {x : Int} {i : Nat} {b : Bool} (h : (b.toNat : Int) = x / 2 ^ i % 2) :
    b = testBit x i := by
  unfold testBit
  rw [← h]
  cases b <;> rfl

/-- The bit below pair {lit}`k`; there is none below the first pair. -/
def below (x : Int) : Nat → Bool
  | 0 => false
  | k + 1 => testBit x (2 * k + 1)

/-- The signed low part of a number is its low part, less the weight of the next bit. -/
theorem bmod_pow_eq (x : Int) (k : Nat) :
    x.bmod (4 ^ k) = x % 4 ^ k - 4 ^ k * bit (below x k) := by
  cases k with
  | zero => simp [below, bit, Int.bmod]
  | succ k =>
      have hpow : (4 : Int) ^ (k + 1) = 2 * 2 ^ (2 * k + 1) := by
        rw [show (4 : Int) = 2 ^ 2 by norm_num, ← pow_mul]
        ring
      have hcast : ((4 ^ (k + 1) : Nat) : Int) = 2 * 2 ^ (2 * k + 1) := by
        rw [← hpow]
        norm_num
      have hpos : (0 : Int) < 2 ^ (2 * k + 1) := by positivity
      have hbit := bit_testBit x (2 * k + 1)
      rw [below, hpow]
      generalize (2 : Int) ^ (2 * k + 1) = m at *
      -- The remainder splits into the next bit and the part below it.
      have hsplit : x % (2 * m) = x % m + m * (x / m % 2) := by
        rw [mul_comm 2 m, emod_mul x hpos (by norm_num)]
      have hlow := Int.emod_nonneg x hpos.ne'
      have hlow' := Int.emod_lt_of_pos x hpos
      rw [Int.bmod, hcast, hbit]
      rcases Int.emod_two_eq_zero_or_one (x / m) with h | h
      · rw [h] at hsplit ⊢
        rw [if_pos (by omega)]
        ring
      · rw [h] at hsplit ⊢
        rw [if_neg (by omega)]
        ring

/-- One more digit extends the signed low part by one pair of bits. -/
theorem bmod_pow_succ (x : Int) (k : Nat) :
    x.bmod (4 ^ (k + 1)) = x.bmod (4 ^ k) +
      4 ^ k * digit (testBit x (2 * k + 1)) (testBit x (2 * k)) (below x k) := by
  have hpow : (4 : Int) ^ k = 2 ^ (2 * k) := by
    rw [show (4 : Int) = 2 ^ 2 by norm_num, ← pow_mul]
  have hhigh : bit (testBit x (2 * k + 1)) = x / 4 ^ k / 2 % 2 := by
    rw [bit_testBit, pow_succ, ← hpow, Int.ediv_ediv_of_nonneg (by positivity)]
  have hlow : bit (testBit x (2 * k)) = x / 4 ^ k % 2 := by
    rw [bit_testBit, ← hpow]
  have hsplit : x % 4 ^ (k + 1) = x % 4 ^ k + 4 ^ k * (x / 4 ^ k % 4) := by
    rw [pow_succ, emod_mul x (by positivity) (by norm_num)]
  rw [bmod_pow_eq, bmod_pow_eq, hsplit, digit, hlow]
  have hbelow : below x (k + 1) = testBit x (2 * k + 1) := rfl
  rw [hbelow, hhigh]
  have hpair : x / 4 ^ k % 4 = x / 4 ^ k % 2 + 2 * (x / 4 ^ k / 2 % 2) := by
    omega
  rw [hpair, pow_succ]
  ring

/-- The partial product of {lit}`x` and {lit}`y` after {lit}`k` digits of {lit}`x`. -/
structure Partial (x y : Int) (k : Nat) (hi low : Int) : Prop where
  value : low + 4 ^ k * hi = x.bmod (4 ^ k) * y
  low_nonneg : 0 ≤ low
  low_lt : low < 4 ^ k

namespace Partial

variable {x y hi low : Int} {k : Nat}

/-- The sum formed in round {lit}`k`. -/
def sum (x y : Int) (k : Nat) (hi : Int) : Int :=
  hi + digit (testBit x (2 * k + 1)) (testBit x (2 * k)) (below x k) * y

/-- Before the first round. -/
theorem start (x y : Int) : Partial x y 0 0 0 := by
  constructor <;> simp

/-- What the parts represent before the high part is shifted. -/
theorem sum_value (h : Partial x y k hi low) :
    low + 4 ^ k * sum x y k hi = x.bmod (4 ^ (k + 1)) * y := by
  rw [bmod_pow_succ, sum, add_mul, ← h.value]
  ring

/-- One round: two more bits are final. -/
theorem step (h : Partial x y k hi low) :
    Partial x y (k + 1) (sum x y k hi / 4) (low + 4 ^ k * (sum x y k hi % 4)) := by
  have hdiv := Int.emod_add_mul_ediv (sum x y k hi) 4
  have hnonneg := Int.emod_nonneg (sum x y k hi) (by norm_num : (4 : Int) ≠ 0)
  have hlt := Int.emod_lt_of_pos (sum x y k hi) (by norm_num : (0 : Int) < 4)
  have hpow : (0 : Int) < 4 ^ k := by positivity
  refine ⟨?_, ?_, ?_⟩
  · rw [← h.sum_value, pow_succ]
    nth_rewrite 3 [← hdiv]
    ring
  · have := h.low_nonneg
    positivity
  · have := h.low_lt
    rw [pow_succ]
    nlinarith

/-- The high part is at most about half the multiplicand. -/
theorem hi_bound {b : Int} (h : Partial x y k hi low) (hy : |y| ≤ b) :
    -(b + 2) ≤ 2 * hi ∧ 2 * hi ≤ b := by
  have hpow : (0 : Int) < 4 ^ k := by positivity
  have hbmod : |x.bmod (4 ^ k) * 2| ≤ 4 ^ k := by
    have hcast : ((4 ^ k : Nat) : Int) = 4 ^ k := by norm_num
    have hle := Int.le_bmod (x := x) (m := 4 ^ k) (by positivity)
    have hlt := Int.bmod_lt (x := x) (m := 4 ^ k) (by positivity)
    rw [hcast] at hle hlt
    rw [abs_le]
    omega
  have hprod : |x.bmod (4 ^ k) * 2 * y| ≤ 4 ^ k * b := by
    rw [abs_mul]
    exact mul_le_mul hbmod hy (abs_nonneg y) hpow.le
  rw [abs_le] at hprod
  have hvalue : 2 * low + 4 ^ k * (2 * hi) = x.bmod (4 ^ k) * 2 * y := by
    linear_combination 2 * h.value
  have hlow := h.low_nonneg
  have hlow' := h.low_lt
  constructor
  · by_contra hlt
    nlinarith [mul_le_mul_of_nonneg_left (show 2 * hi + 1 ≤ -(b + 2) by omega) hpow.le]
  · by_contra hlt
    nlinarith [mul_le_mul_of_nonneg_left (show b + 1 ≤ 2 * hi by omega) hpow.le]

/-- A digit multiplies the multiplicand by at most two. -/
theorem abs_digit_mul_le (high low below : Bool) (y : Int) :
    |digit high low below * y| ≤ 2 * |y| := by
  rw [abs_mul]
  refine mul_le_mul_of_nonneg_right ?_ (abs_nonneg y)
  cases high <;> cases low <;> cases below <;> decide

/-- When the digits cover the multiplier, the last sum completes the product. -/
theorem product (h : Partial x y k hi low) (hx : -(4 ^ (k + 1)) ≤ 2 * x)
    (hx' : 2 * x < 4 ^ (k + 1)) : low + 4 ^ k * sum x y k hi = x * y := by
  rw [h.sum_value, Int.bmod_eq_of_le_mul_two]
  · push_cast
    omega
  · push_cast
    omega

end Partial

end Booth
end Arith
end AcceleratorSoc
