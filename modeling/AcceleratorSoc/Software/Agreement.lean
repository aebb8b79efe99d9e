import AcceleratorSoc.CnnCore.PackedWords
import AcceleratorSoc.Software.TestGelu

/-!
# Hardware and software model agree

The activation stage of the core and the table of the software model subtract the
same entry, and the accumulators of the core hold the dot products whose strings
the software model computes.

Main results:

- Theorem {lit}`gelu_eq_sub`: the activation stage subtracts the software's entry,
  scaled from Q8.8 to Q16.16.
- Theorem {lit}`middleBits_gelu`: the sixteen bits of the activation that the software
  predicts.
- Theorem {lit}`hardware_eq_software`: the prediction of the software model is what
  the sixteen activation wires show.
-/

namespace AcceleratorSoc
namespace Software

open Clocked CnnCore Python

/-! ## The activation table -/

/-- No entry is negative or exceeds the start of its segment. -/
theorem decrement_bounds {low : Nat} (hlow : low < 8) (high : Nat) :
    0 ≤ decrement low high ∧ decrement low high ≤ 256 * high + 32 * low := by
  unfold decrement
  interval_cases low <;> simp <;> split_ifs <;> omega

/-- An arm of the hardware table whose deltas are entries of the software table. -/
private theorem geluArm_eq_sub (x : Word) (unit₀ entry₀ unit₁ entry₁ : Nat)
    (hunit₀ : unit₀ < 2 ^ 16) (hentry₀ : 256 * entry₀ < 2 ^ 16) (hunit₁ : unit₁ < 2 ^ 16)
    (hentry₁ : 256 * entry₁ < 2 ^ 16) :
    geluArm x (BitVec.ofNat 16 unit₀) (BitVec.ofNat 16 (256 * entry₀))
        (BitVec.ofNat 16 unit₁) (BitVec.ofNat 16 (256 * entry₁)) =
      x - BitVec.ofNat 32 (256 *
        (if ((integerPart x).toNat : Int) = unit₀ then (entry₀ : Int)
        else if ((integerPart x).toNat : Int) = unit₁ then (entry₁ : Int) else 0).toNat) := by
  have hunit : ∀ unit < 2 ^ 16, integerPart x = BitVec.ofNat 16 unit ↔
      ((integerPart x).toNat : Int) = unit := by
    intro unit hlt
    rw [Nat.cast_inj, ← BitVec.toNat_inj, BitVec.toNat_ofNat, Nat.mod_eq_of_lt hlt]
  have hentry : ∀ entry, 256 * entry < 2 ^ 16 →
      (BitVec.ofNat 16 (256 * entry)).setWidth 32 = BitVec.ofNat 32 (256 * entry) := by
    intro entry hlt
    rw [BitVec.setWidth_ofNat_of_le_of_lt (by decide) hlt]
  simp only [geluArm, hunit unit₀ hunit₀, hunit unit₁ hunit₁]
  split_ifs
  · rw [hentry entry₀ hentry₀, Int.toNat_natCast]
  · rw [hentry entry₁ hentry₁, Int.toNat_natCast]
  · exact (sub_zero x).symm

/-- The activation stage subtracts the software's entry, scaled from Q8.8 to
Q16.16. -/
theorem gelu_eq_sub (x : Word) :
    gelu x = x - BitVec.ofNat 32
      (256 * (decrement (fractionEighth x).toNat (integerPart x).toNat).toNat) := by
  have heighth : ∀ b : BitVec 3, b = 0 ∨ b = 1 ∨ b = 2 ∨ b = 3 ∨ b = 4 ∨ b = 5 ∨ b = 6 ∨
      b = 7 := by
    decide
  -- One case for each arm of the case statement.
  rcases heighth (fractionEighth x) with h | h | h | h | h | h | h | h <;>
    simp only [gelu, decrement, h]
  · exact geluArm_eq_sub x 1 0x29 2 0xc (by decide) (by decide) (by decide) (by decide)
  · exact geluArm_eq_sub x 0 0x0e 1 0x26 (by decide) (by decide) (by decide) (by decide)
  · exact geluArm_eq_sub x 0 0x1a 1 0x22 (by decide) (by decide) (by decide) (by decide)
  · exact geluArm_eq_sub x 0 0x22 1 0x1e (by decide) (by decide) (by decide) (by decide)
  · exact geluArm_eq_sub x 0 0x27 1 0x1a (by decide) (by decide) (by decide) (by decide)
  · exact geluArm_eq_sub x 0 0x2b 1 0x16 (by decide) (by decide) (by decide) (by decide)
  · exact geluArm_eq_sub x 0 0x2c 1 0x12 (by decide) (by decide) (by decide) (by decide)
  · exact geluArm_eq_sub x 0 0x2b 1 0x0f (by decide) (by decide) (by decide) (by decide)

/-- On an accumulator below 2^24 the sixteen bits from bit eight on are what the
software makes of the same bits of the accumulator. -/
theorem middleBits_gelu {x : Word} (hx : x.toNat < 2 ^ 24) {bits : Nat}
    (hbits : bits = x.toNat / 256 % 65536) :
    (((gelu x).extractLsb' 8 16).toNat : Int) =
      bits - decrement (bits / 32 % 8 : Nat) (bits / 256 % 256 : Nat) := by
  have heighth : (fractionEighth x).toNat = bits / 32 % 8 := by
    rw [fractionEighth, BitVec.extractLsb'_toNat, Nat.shiftRight_eq_div_pow]
    omega
  have hunit : (integerPart x).toNat = bits / 256 % 256 := by
    rw [integerPart, BitVec.extractLsb'_toNat, Nat.shiftRight_eq_div_pow]
    omega
  have hlow : bits / 32 % 8 < 8 := by
    omega
  obtain ⟨hnonneg, hle⟩ := decrement_bounds hlow (bits / 256 % 256)
  rw [gelu_eq_sub, heighth, hunit]
  generalize decrement _ _ = entry at hnonneg hle ⊢
  obtain ⟨d, rfl⟩ := Int.eq_ofNat_of_zero_le hnonneg
  have hsmall : (BitVec.ofNat 32 (256 * d)).toNat = 256 * d := by
    rw [BitVec.toNat_ofNat, Nat.mod_eq_of_lt (by omega)]
  have hsub : (x - BitVec.ofNat 32 (256 * d)).toNat = x.toNat - 256 * d := by
    rw [BitVec.toNat_sub_of_le (by rw [BitVec.le_def, hsmall]; omega), hsmall]
  rw [Int.toNat_natCast, BitVec.extractLsb'_toNat, hsub, Nat.shiftRight_eq_div_pow]
  omega

/-! ## Agreement -/

/-- The prediction of the software model is what the activation wires show.  In a
run from reset, let the buffers hold the rows of the first matrix and the columns
of the second one when the core enters {lit}`COMPUTE`, and let all dot products be
below 2^24.  Then, from the end of the sweep until the accumulators are cleared,
entry {lit}`[c][r]` of the prediction is the middle of wire {lit}`gelu_rc`. -/
theorem hardware_eq_software {inp : Nat → CoreInput} {e n : Nat} {place : Placement}
    {matrix1 matrix2 : HexMatrix} {words1 : Fin 4 → Fin 8 → BitVec 16}
    {words2 : Fin 8 → Fin 4 → BitVec 16} (h1 : Spells matrix1 words1)
    (h2 : Spells matrix2 words2) (hsmall : ∀ c r, dotProduct words1 words2 c r < 2 ^ 24)
    (hentry : EntersCompute inp e)
    (hweights : ∀ c, Packs place ((busRun inp (e + 1)).core.curWeight c) (words1 c))
    (hdata : ∀ r, Packs place ((busRun inp (e + 1)).core.imageData r) fun j => words2 j r)
    (hn : 11 ≤ n) (hclear : ∀ m < n, (busRun inp (e + 1 + m)).core.mode ≠ .clear) :
    calGeluResultHex matrix1 matrix2 = .ok (rowsOf fun c r : Fin 4 =>
      hex (((busRun inp (e + 1 + n)).core.geluWire r c).extractLsb' 8 16).toNat) := by
  have haccumulator : ∀ c r : Fin 4,
      ((busRun inp (e + 1 + n)).core.result r c).toNat = dotProduct words1 words2 c r := by
    intro c r
    have := hsmall c r
    rw [result_of_entersCompute hentry hn hclear, innerProduct_of_packs (hweights c) (hdata r),
      BitVec.natCast_eq_ofNat, BitVec.toNat_ofNat]
    exact Nat.mod_eq_of_lt (by rw [← dotProduct]; omega)
  have hwire : ∀ c r : Fin 4,
      ((((busRun inp (e + 1 + n)).core.geluWire r c).extractLsb' 8 16).toNat : Int) =
        (dotProduct words1 words2 c r / 256 % 65536 : Nat) -
          decrement (dotProduct words1 words2 c r / 256 % 65536 / 32 % 8 : Nat)
            (dotProduct words1 words2 c r / 256 % 65536 / 256 % 256 : Nat) := by
    intro c r
    exact middleBits_gelu (by rw [haccumulator]; exact hsmall c r) (by rw [haccumulator])
  have hsoftware := calGeluResultHex_eq (by decide) (by decide) (by decide) h1 h2
    fun c r => lt_of_lt_of_le (hsmall c r) (by decide)
  rw [hsoftware]
  simp only [hwire]

/-- A fast slave that packs two operands into every word it returns. -/
def packedSlave (n : Nat) : CoreInput :=
  { greedySlave n with
    cnnIcbRspRdata := BitVec.ofNat 32
      (if n < 20 then 65536 * 0x20 + 0x40 + n else 65536 * 0x10 + 0x60 + n) }

/-- The weight rows this slave returns. -/
def packedRows (c : Fin 4) (j : Fin 8) : BitVec 16 :=
  if j.val % 2 = 0 then BitVec.ofNat 16 (0x43 + 4 * c.val + j.val / 2) else 0x20

/-- The image columns this slave returns. -/
def packedColumns (j : Fin 8) (r : Fin 4) : BitVec 16 :=
  if j.val % 2 = 0 then BitVec.ofNat 16 (0x76 + 4 * r.val + j.val / 2) else 0x10

/-- Served by this slave, the core shows what the software predicts. -/
theorem hardware_eq_software_packedSlave :
    calGeluResultHex (hexMatrix (by decide) packedRows) (hexMatrix (by decide) packedColumns) =
      .ok (rowsOf fun c r : Fin 4 =>
        hex (((busRun packedSlave (38 + 1 + 11)).core.geluWire r c).extractLsb' 8 16).toNat) := by
  have hweights : ∀ c, Packs finProdFinEquiv ((busRun packedSlave (38 + 1)).core.curWeight c)
      (packedRows c) := fun c =>
    { low := by
        revert c
        decide +kernel
      high := by
        revert c
        decide +kernel }
  have hdata : ∀ r, Packs finProdFinEquiv ((busRun packedSlave (38 + 1)).core.imageData r)
      fun j => packedColumns j r := fun r =>
    { low := by
        revert r
        decide +kernel
      high := by
        revert r
        decide +kernel }
  exact hardware_eq_software (hexMatrix_spells _ _) (hexMatrix_spells _ _)
    (by decide +kernel) ⟨by decide +kernel, by decide +kernel⟩ hweights hdata (le_refl 11)
    (by decide +kernel)

end Software
end AcceleratorSoc
