import Mathlib.Algebra.Order.Ring.Abs
import Mathlib.Tactic.Push
import Mathlib.Tactic.Ring

/-!
# Signed non-restoring division

The dividend is read one bit at a time, from the high end.  In every round the divisor
is subtracted from the partial remainder when the two have the same sign, and added
otherwise; the quotient digit is plus or minus one.  The remainder is never restored, so
at the end it can have the wrong sign or be as large as the divisor, and one more
addition or subtraction corrects it.

Main results:

- Theorem {lit}`Partial.start`: the round on the sign of the dividend.
- Theorem {lit}`Partial.step`: one round on the next bit.
- Theorem {lit}`Partial.tdiv_tmod`: an uncorrected result is the truncating division
  when the remainder needs no correction.
- Theorem {lit}`Partial.corrected`: otherwise the corrected one is.
-/

namespace AcceleratorSoc
namespace Arith
namespace NonRestoring

/-- The quotient digit of a round: one if remainder and divisor have the same sign. -/
def digit (r d : Int) : Int :=
  if (r < 0) = (d < 0) then 1 else -1

/-- A digit is one or minus one. -/
theorem digit_cases (r d : Int) : digit r d = 1 ∨ digit r d = -1 := by
  unfold digit
  split_ifs
  · exact Or.inl rfl
  · exact Or.inr rfl

/-- The digit as a bit of hardware: one for plus one, zero for minus one. -/
def digitBit (r d : Int) : Bool :=
  decide (r < 0) == decide (d < 0)

/-- It is given by its bit. -/
theorem digit_eq (r d : Int) : digit r d = 2 * ((digitBit r d).toNat : Int) - 1 := by
  unfold digit digitBit
  by_cases hr : r < 0 <;> by_cases hd : d < 0 <;> simp [hr, hd]

/-- Subtracting the divisor by the digit takes its magnitude off a remainder that is
not negative, and adds it to a negative one. -/
theorem digit_mul (r d : Int) : digit r d * d = if r < 0 then -|d| else |d| := by
  unfold digit
  rcases lt_or_ge d 0 with hd | hd
  · rw [abs_of_neg hd]
    split_ifs <;> simp_all
  · rw [abs_of_nonneg hd]
    split_ifs <;> simp_all
    omega

/-- Quotient and remainder of the part {lit}`n` of the dividend that has been read.  The
remainder may be as large as the divisor on the negative side. -/
structure Partial (n d q r : Int) : Prop where
  value : n = d * q + r
  le : -|d| ≤ r
  lt : r < |d|

namespace Partial

variable {n d q r : Int}

/-- The first round works on the sign of the dividend alone. -/
theorem start (hd : d ≠ 0) (hn : n = 0 ∨ n = -1) :
    Partial n d (digit n d) (n - digit n d * d) := by
  have hpos := abs_pos.mpr hd
  have hmul := digit_mul n d
  refine ⟨by ring, ?_, ?_⟩ <;> rw [hmul] <;> split_ifs <;> omega

/-- One round on the next bit of the dividend. -/
theorem step (h : Partial n d q r) {b : Int} (hb : b = 0 ∨ b = 1) :
    Partial (2 * n + b) d (2 * q + digit r d) (2 * r + b - digit r d * d) := by
  have hle := h.le
  have hlt := h.lt
  have hmul := digit_mul r d
  refine ⟨?_, ?_, ?_⟩
  · rw [h.value]
    ring
  all_goals
    rw [hmul]
    split_ifs <;> omega

/-- The remainder has to be corrected: its sign is not that of the dividend, or it is as
large as the divisor. -/
def NeedsCorrection (n d r : Int) : Prop :=
  r ≠ 0 ∧ (r < 0) ≠ (n < 0) ∨ r = -d ∨ r = d

/-- Quotient and remainder of the truncating division are determined by the size of the
remainder and its sign. -/
theorem tdiv_tmod_of_value (hd : d ≠ 0) (hvalue : n = d * q + r) (hle : -|d| < r)
    (hlt : r < |d|) (hsign : r = 0 ∨ (r < 0 ↔ n < 0)) :
    n.tdiv d = q ∧ n.tmod d = r := by
  have habs : (d.natAbs : Int) = |d| := Int.natCast_natAbs d
  rcases lt_or_ge n 0 with hn | hn
  · rw [Int.tdiv_tmod_unique' hn.le hd, habs]
    omega
  · rw [Int.tdiv_tmod_unique hn hd, habs]
    omega

/-- A result that needs no correction is final. -/
theorem tdiv_tmod (h : Partial n d q r) (hd : d ≠ 0) (hok : ¬NeedsCorrection n d r) :
    n.tdiv d = q ∧ n.tmod d = r := by
  have hle := h.le
  unfold NeedsCorrection at hok
  push Not at hok
  obtain ⟨hsign, hneg, hne⟩ := hok
  apply tdiv_tmod_of_value hd h.value
  · rcases abs_cases d with ⟨habs, _⟩ | ⟨habs, _⟩ <;> omega
  · exact h.lt
  · by_cases hr : r = 0
    · exact Or.inl hr
    · exact Or.inr (iff_of_eq (hsign hr))

/-- A result that needs correction is final after one more round without a new bit, on
the other side of zero. -/
theorem corrected (h : Partial n d q r) (hd : d ≠ 0) (hneed : NeedsCorrection n d r) :
    n.tdiv d = q + digit r d ∧ n.tmod d = r - digit r d * d := by
  have hle := h.le
  have hlt := h.lt
  have hmul := digit_mul r d
  have hpos := abs_pos.mpr hd
  have hsign : r < 0 ∧ (0 ≤ n ∨ r = -|d|) ∨ 0 < r ∧ n < 0 := by
    rcases hneed with ⟨hne, hsign⟩ | hr | hr
    · rcases lt_or_ge r 0 with hr | hr
      · left
        exact ⟨hr, Or.inl (by simpa [hr] using hsign)⟩
      · right
        exact ⟨by omega, by simpa [not_lt.mpr hr] using hsign⟩
    · left
      rcases abs_cases d with ⟨habs, _⟩ | ⟨habs, _⟩ <;> omega
    · left
      rcases abs_cases d with ⟨habs, _⟩ | ⟨habs, _⟩ <;> omega
  apply tdiv_tmod_of_value hd
  · rw [h.value]
    ring
  · rw [hmul]
    split_ifs <;> omega
  · rw [hmul]
    split_ifs <;> omega
  · rw [hmul]
    split_ifs <;> omega

end Partial

end NonRestoring
end Arith
end AcceleratorSoc
