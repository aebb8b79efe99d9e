import Mathlib.Data.List.FinRange
import Mathlib.Tactic.SplitIfs

/-!
# One-hot selection

Hardware often keeps an index as a vector with exactly one bit set.  A word is
read under such a vector by masking every word with its bit and taking the OR of
all of them, and the index moves on by shifting the vector round.

Main results:

- Theorem {lit}`orMux_eq`: the OR of the masked words is the selected word.
- Theorem {lit}`anyOf_eq`: the OR of the masked flags is the selected flag.
- Theorem {lit}`ringNext_twoPow`: shifting round is the successor modulo the
  number of bits.
-/

namespace AcceleratorSoc
namespace Clocked

variable {n w : Nat}

/-- OR of the words whose select bit is set. -/
def orMux (sel : BitVec n) (dat : Fin n → BitVec w) : BitVec w :=
  (List.finRange n).foldl
    (fun acc (j : Fin n) => acc ||| (if sel.getLsbD j then dat j else 0#w)) 0#w

/-- OR of the flags whose select bit is set. -/
def anyOf (sel : BitVec n) (flag : Fin n → Bool) : Bool :=
  (List.finRange n).any fun j => sel.getLsbD j && flag j

/-- The one-hot vector of the next index; the last bit is followed by the first. -/
def ringNext (p : BitVec n) : BitVec n :=
  if p.getLsbD (n - 1) then 1#n else p <<< 1

/-- A vector with one bit set selects one index. -/
theorem getLsbD_twoPow_fin (k j : Fin n) :
    (BitVec.twoPow n k).getLsbD j = decide (j = k) := by
  rw [BitVec.getLsbD_twoPow, decide_eq_true k.isLt, Bool.true_and]
  exact decide_eq_decide.mpr ⟨fun h => Fin.ext h.symm, fun h => congrArg Fin.val h.symm⟩

/-- A one-hot vector passes on the flag of its index. -/
theorem anyOf_eq (k : Fin n) (flag : Fin n → Bool) :
    anyOf (BitVec.twoPow n k) flag = flag k := by
  rw [Bool.eq_iff_iff, anyOf, List.any_eq_true]
  constructor
  · rintro ⟨j, _, hj⟩
    rw [getLsbD_twoPow_fin, Bool.and_eq_true, decide_eq_true_eq] at hj
    exact hj.1 ▸ hj.2
  · intro hk
    refine ⟨k, List.mem_finRange k, ?_⟩
    rw [getLsbD_twoPow_fin, decide_eq_true rfl, hk, Bool.and_self]

/-- A bit of the merged bus comes from some selected one. -/
private theorem getLsbD_foldl_or (sel : BitVec n) (dat : Fin n → BitVec w) (i : Nat)
    (l : List (Fin n)) (acc : BitVec w) :
    (l.foldl (fun acc (j : Fin n) => acc ||| (if sel.getLsbD j then dat j else 0#w))
        acc).getLsbD i =
      (acc.getLsbD i || l.any fun j => sel.getLsbD j && (dat j).getLsbD i) := by
  induction l generalizing acc with
  | nil => simp
  | cons j l ih =>
      rw [List.foldl_cons, ih, BitVec.getLsbD_or, List.any_cons, Bool.or_assoc]
      congr 2
      split_ifs with hj
      · rw [hj, Bool.true_and]
      · rw [Bool.eq_false_iff.mpr hj, BitVec.getLsbD_zero, Bool.false_and]

/-- Each bit of the OR is the OR of the bits. -/
theorem getLsbD_orMux (sel : BitVec n) (dat : Fin n → BitVec w) (i : Nat) :
    (orMux sel dat).getLsbD i = anyOf sel fun j => (dat j).getLsbD i := by
  rw [orMux, getLsbD_foldl_or, BitVec.getLsbD_zero, Bool.false_or]
  rfl

/-- A one-hot vector passes on the word of its index. -/
theorem orMux_eq (k : Fin n) (dat : Fin n → BitVec w) :
    orMux (BitVec.twoPow n k) dat = dat k := by
  apply BitVec.eq_of_getLsbD_eq
  intro i _
  rw [getLsbD_orMux, anyOf_eq]

/-- Shifting a one-hot vector round moves its bit to the next index. -/
theorem ringNext_twoPow {k : Nat} (hk : k < n) :
    ringNext (BitVec.twoPow n k) = BitVec.twoPow n ((k + 1) % n) := by
  have hlast : (BitVec.twoPow n k).getLsbD (n - 1) = decide (k = n - 1) := by
    rw [BitVec.getLsbD_twoPow, decide_eq_true hk, Bool.true_and]
  rw [ringNext, hlast]
  by_cases hwrap : k = n - 1
  · have hround : (k + 1) % n = 0 := by
      rw [hwrap, Nat.sub_add_cancel (by omega), Nat.mod_self]
    rw [if_pos (decide_eq_true hwrap), hround, BitVec.twoPow_zero]
  · rw [if_neg (by simpa using hwrap), Nat.mod_eq_of_lt (by omega)]
    apply BitVec.eq_of_getLsbD_eq
    intro i hi
    rw [BitVec.getLsbD_shiftLeft, BitVec.getLsbD_twoPow, BitVec.getLsbD_twoPow]
    have hnext : k + 1 < n := by omega
    simp only [hi, hk, hnext, decide_true, Bool.true_and]
    by_cases hzero : i < 1
    · have : ¬k + 1 = i := by omega
      simp [hzero, this]
    · have : k = i - 1 ↔ k + 1 = i := by omega
      simp [hzero, this]

end Clocked
end AcceleratorSoc
