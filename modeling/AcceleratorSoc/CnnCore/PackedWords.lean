import AcceleratorSoc.CnnCore.StoreStream

/-!
# Vectors packed into operand words

Four operand words hold a vector of eight 16-bit elements, two elements a word.
When the weight words and the image words hold their vectors in the same places,
an accumulator ends as the sum of the eight products of zero-extended elements,
modulo 2^32.

Main results:

- Theorem {lit}`innerProduct_of_packs`: the inner product as a natural number.
- Theorem {lit}`result_of_entersCompute`: what the accumulators hold after a visit
  to {lit}`COMPUTE` has begun.
-/

namespace AcceleratorSoc
namespace CnnCore

open Clocked

/-- Where the elements of a vector are placed: word and half of the word. -/
abbrev Placement :=
  Fin 4 × Fin 2 ≃ Fin 8

/-- The operand words hold the vector, each element in its place. -/
structure Packs (place : Placement) (words : Bank Word) (vector : Fin 8 → BitVec 16) :
    Prop where
  low : ∀ k, (words k).extractLsb' 0 16 = vector (place (k, 0))
  high : ∀ k, (words k).extractLsb' 16 16 = vector (place (k, 1))

/-- Zero-extension of an element. -/
private theorem setWidth_eq_natCast (x : BitVec 16) :
    x.setWidth 32 = ((x.toNat : Nat) : Word) := by
  rw [BitVec.natCast_eq_ofNat, BitVec.ofNat_toNat]

/-- On packed vectors the inner product is the sum of all eight products. -/
theorem innerProduct_of_packs {s : CoreState} {place : Placement} {r c : Fin 4}
    {weights data : Fin 8 → BitVec 16} (hweights : Packs place (s.curWeight c) weights)
    (hdata : Packs place (s.imageData r) data) :
    innerProduct s r c = ((∑ j, (weights j).toNat * (data j).toNat : Nat) : Word) := by
  have hword : ∀ k : Fin 4, product (s.imageData r k) (s.curWeight c k) =
      ∑ h : Fin 2, (((weights (place (k, h))).toNat * (data (place (k, h))).toNat : Nat) :
        Word) := by
    intro k
    rw [product, lowHalf, lowHalf, highHalf, highHalf, hweights.low, hweights.high, hdata.low,
      hdata.high, Fin.sum_univ_two]
    simp only [setWidth_eq_natCast, Nat.cast_mul]
  calc
    innerProduct s r c = ∑ k : Fin 4, ∑ h : Fin 2,
        (((weights (place (k, h))).toNat * (data (place (k, h))).toNat : Nat) : Word) :=
      Finset.sum_congr rfl fun k _ => hword k
    _ = ∑ p : Fin 4 × Fin 2,
        (((weights (place p)).toNat * (data (place p)).toNat : Nat) : Word) :=
      (Fintype.sum_prod_type fun p : Fin 4 × Fin 2 =>
        (((weights (place p)).toNat * (data (place p)).toNat : Nat) : Word)).symm
    _ = ∑ j, (((weights j).toNat * (data j).toNat : Nat) : Word) :=
      Equiv.sum_comp place fun j => (((weights j).toNat * (data j).toNat : Nat) : Word)
    _ = ((∑ j, (weights j).toNat * (data j).toNat : Nat) : Word) :=
      (Nat.cast_sum _ _).symm

/-- After a visit to {lit}`COMPUTE` has begun, the accumulators hold the inner
products of the buffers from its cycle eleven on, until they are cleared. -/
theorem result_of_entersCompute {inp : Nat → CoreInput} {e n : Nat}
    (h : EntersCompute inp e) (hn : 11 ≤ n)
    (hclear : ∀ m < n, (busRun inp (e + 1 + m)).core.mode ≠ .clear) (r c : Fin 4) :
    (busRun inp (e + 1 + n)).core.result r c =
      innerProduct (busRun inp (e + 1)).core r c := by
  rw [core_eq_run]
  apply result_after_sweep h.cleanStart _ hn
  intro m hm
  rw [← core_eq_run]
  exact hclear m hm

end CnnCore
end AcceleratorSoc
