import Mathlib.Tactic.Ring
import AcceleratorSoc.CnnCore.PackedWords

/-!
# Signed operands

A processing element widens the halves of its operand words with zeros.  When the
elements are meant as two's complement numbers this adds, for every negative
element, 2^16 times the element it meets.  The accumulators wrap at 2^32, so the
excess is invisible exactly when these elements add up to a multiple of 2^16.  A
Q16.16 accumulator has the scale of a product of two Q8.8 elements, so all values
are compared as integers.

Main results:

- Theorem {lit}`toNat_mul_toNat`: one product of zero-extended elements.
- Theorem {lit}`signed_result_iff`: an accumulator is the signed dot product exactly
  when its cross terms add up to a multiple of 2^16.
- Theorem {lit}`signed_result_wrong`: operands for which it is not.
-/

namespace AcceleratorSoc
namespace CnnCore

open Clocked

/-- What a negative element of one side adds of the other side, in units of
2^16. -/
def crossTerm (weight data : BitVec 16) : Int :=
  (if weight.toInt < 0 then data.toInt else 0) + if data.toInt < 0 then weight.toInt else 0

/-- The exact signed dot product. -/
def signedDotProduct (weights data : Fin 8 → BitVec 16) : Int :=
  ∑ j, (weights j).toInt * (data j).toInt

/-- The two readings of a half word. -/
private theorem toNat_eq_toInt (x : BitVec 16) :
    (x.toNat : Int) = x.toInt + 2 ^ 16 * if x.toInt < 0 then 1 else 0 := by
  have := BitVec.toInt_eq_toNat_cond x
  split_ifs at * <;> omega

/-- One product of zero-extended elements: the signed product, the cross term and a
multiple of 2^32. -/
theorem toNat_mul_toNat (weight data : BitVec 16) :
    (weight.toNat : Int) * data.toNat = weight.toInt * data.toInt +
      2 ^ 16 * crossTerm weight data +
      2 ^ 32 * if weight.toInt < 0 ∧ data.toInt < 0 then 1 else 0 := by
  rw [toNat_eq_toInt weight, toNat_eq_toInt data, crossTerm]
  by_cases hweight : weight.toInt < 0 <;> by_cases hdata : data.toInt < 0 <;>
    simp [hweight, hdata] <;> ring

/-- A wrapped integer equals a number in range exactly when they differ by a
multiple of the modulus. -/
private theorem bmod_eq_iff {x d : Int} (hlow : -2 ^ 31 ≤ d) (hhigh : d < 2 ^ 31) :
    x.bmod (2 ^ 32) = d ↔ 2 ^ 32 ∣ x - d := by
  constructor
  · intro h
    rw [← h]
    exact Int.dvd_self_sub_bmod
  · rintro ⟨k, hk⟩
    have hx : x = d + (2 ^ 32 : Nat) * k := by
      push_cast
      omega
    rw [hx, Int.add_mul_bmod_self_left, Int.bmod_eq_of_le (by omega) (by omega)]

/-- On packed vectors the inner product, read as a signed number, is the signed dot
product exactly when the cross terms add up to a multiple of 2^16. -/
theorem innerProduct_signed_iff {s : CoreState} {place : Placement} {r c : Fin 4}
    {weights data : Fin 8 → BitVec 16} (hweights : Packs place (s.curWeight c) weights)
    (hdata : Packs place (s.imageData r) data)
    (hlow : -2 ^ 31 ≤ signedDotProduct weights data)
    (hhigh : signedDotProduct weights data < 2 ^ 31) :
    (innerProduct s r c).toInt = signedDotProduct weights data ↔
      2 ^ 16 ∣ ∑ j, crossTerm (weights j) (data j) := by
  have hsum : ((∑ j, (weights j).toNat * (data j).toNat : Nat) : Int) =
      signedDotProduct weights data + 2 ^ 16 * ∑ j, crossTerm (weights j) (data j) +
        2 ^ 32 * ∑ j, if (weights j).toInt < 0 ∧ (data j).toInt < 0 then 1 else 0 := by
    simp only [Nat.cast_sum, Nat.cast_mul, toNat_mul_toNat, Finset.sum_add_distrib,
      Finset.mul_sum, signedDotProduct]
  rw [innerProduct_of_packs hweights hdata, BitVec.natCast_eq_ofNat, BitVec.toInt_ofNat', hsum,
    bmod_eq_iff hlow hhigh]
  omega

/-- In a run from reset, let the weight words of column {lit}`c` and the image words
of row {lit}`r` hold two signed vectors when the core enters {lit}`COMPUTE`.  Then,
from the end of the sweep until the accumulators are cleared, accumulator
{lit}`rc` is their dot product exactly when the cross terms add up to a multiple of
2^16. -/
theorem signed_result_iff {inp : Nat → CoreInput} {e n : Nat} {place : Placement}
    {r c : Fin 4} {weights data : Fin 8 → BitVec 16} (hentry : EntersCompute inp e)
    (hweights : Packs place ((busRun inp (e + 1)).core.curWeight c) weights)
    (hdata : Packs place ((busRun inp (e + 1)).core.imageData r) data)
    (hlow : -2 ^ 31 ≤ signedDotProduct weights data)
    (hhigh : signedDotProduct weights data < 2 ^ 31) (hn : 11 ≤ n)
    (hclear : ∀ m < n, (busRun inp (e + 1 + m)).core.mode ≠ .clear) :
    ((busRun inp (e + 1 + n)).core.result r c).toInt = signedDotProduct weights data ↔
      2 ^ 16 ∣ ∑ j, ((if (weights j).toInt < 0 then (data j).toInt else 0) +
        if (data j).toInt < 0 then (weights j).toInt else 0) := by
  rw [result_of_entersCompute hentry hn hclear]
  exact innerProduct_signed_iff hweights hdata hlow hhigh

/-- A fast slave that answers every weight read with minus one in the lower half and
the image reads of every row with the given words. -/
def signedSlave (row : Fin 4 → Word) (n : Nat) : CoreInput :=
  { greedySlave n with
    cnnIcbRspRdata := if n < 20 then 0x0000ffff else row (Fin.ofNat 4 (n + 2)) }

/-- Four times minus one, packed with zeros. -/
def minusOnes (j : Fin 8) : BitVec 16 :=
  if j.val % 2 = 0 then 0xffff else 0

/-- The image row one, one, minus one, zero, packed with zeros. -/
def balancedRow (j : Fin 8) : BitVec 16 :=
  if j = 0 then 1 else if j = 2 then 1 else if j = 4 then 0xffff else 0

/-- Cross terms that cancel: the accumulator is the signed dot product. -/
theorem signed_result_balanced :
    ((busRun (signedSlave ![1, 1, 0xffff, 0]) (38 + 1 + 11)).core.result 0 0).toInt =
      signedDotProduct minusOnes balancedRow := by
  have hweights : Packs finProdFinEquiv
      ((busRun (signedSlave ![1, 1, 0xffff, 0]) (38 + 1)).core.curWeight 0) minusOnes :=
    ⟨by decide +kernel, by decide +kernel⟩
  have hdata : Packs finProdFinEquiv
      ((busRun (signedSlave ![1, 1, 0xffff, 0]) (38 + 1)).core.imageData 0) balancedRow :=
    ⟨by decide +kernel, by decide +kernel⟩
  apply (signed_result_iff ⟨by decide +kernel, by decide +kernel⟩ hweights hdata
    (by decide +kernel) (by decide +kernel) (le_refl 11) (by decide +kernel)).mpr
  decide +kernel

/-- Minus one times one, four times: the accumulator ends as {lit}`0x0003fffc`. -/
theorem signed_result_wrong :
    ¬∀ (inp : Nat → CoreInput) (e n : Nat) (place : Placement) (r c : Fin 4)
      (weights data : Fin 8 → BitVec 16), EntersCompute inp e →
      Packs place ((busRun inp (e + 1)).core.curWeight c) weights →
      Packs place ((busRun inp (e + 1)).core.imageData r) data →
      -2 ^ 31 ≤ signedDotProduct weights data → signedDotProduct weights data < 2 ^ 31 →
      11 ≤ n → (∀ m < n, (busRun inp (e + 1 + m)).core.mode ≠ .clear) →
      ((busRun inp (e + 1 + n)).core.result r c).toInt = signedDotProduct weights data := by
  intro h
  have hresult := h (signedSlave fun _ => 1) 38 11 finProdFinEquiv 0 0 minusOnes
    (fun j => if j.val % 2 = 0 then 1 else 0) ⟨by decide +kernel, by decide +kernel⟩
    ⟨by decide +kernel, by decide +kernel⟩ ⟨by decide +kernel, by decide +kernel⟩
    (by decide +kernel) (by decide +kernel) (le_refl 11) (by decide +kernel)
  exact absurd hresult (by decide +kernel)

end CnnCore
end AcceleratorSoc
