import AcceleratorSoc.Software.Agreement

/-!
# Order under the activation stage

The activation stage is a table lookup by eighths of a unit: from each eighth it
subtracts the difference between the argument and its activation at the start of
the eighth.  The table entries rise over the first seven eighths, so that just
behind the start of such an eighth the activation falls below its values just
before it.

Main results:

- Theorem {lit}`gelu_add_tableDelta`: the stage subtracts the table entry of the
  eighth.
- Theorem {lit}`gelu_le_iff`: the pairs of arguments whose order the stage keeps.
-/

namespace AcceleratorSoc
namespace Software

open CnnCore

/-- The eighth of a unit in which an accumulator lies. -/
def segment (x : Word) : Nat :=
  x.toNat / 0x2000

/-- The table entry of an eighth. -/
def tableDelta (k : Nat) : Nat :=
  (256 * decrement (k % 8 : Nat) (k / 8 : Nat)).toNat

/-- How far the table rises from one eighth to the next. -/
def tableStep (k : Nat) : Nat :=
  [0x0e00, 0x0c00, 0x0800, 0x0500, 0x0400, 0x0100].getD k 0

/-- Beyond two units and an eighth nothing is subtracted. -/
theorem tableDelta_eq_zero {k : Nat} (h : 17 ≤ k) : tableDelta k = 0 := by
  have hhigh : k / 8 = 2 ∧ k % 8 ≠ 0 ∨ 3 ≤ k / 8 := by
    omega
  unfold tableDelta decrement
  rcases hhigh with ⟨htwo, hlow⟩ | hthree
  · have hne : (k : Int) % 8 ≠ 0 := by
      omega
    simp [htwo, hne]
  · have hne : ∀ unit : Int, unit < 3 → ((k / 8 : Nat) : Int) ≠ unit := by
      intro unit hunit
      omega
    simp only [hne 0 (by decide), hne 1 (by decide), hne 2 (by decide), if_false, ite_self,
      mul_zero, Int.toNat_zero]

/-- The table rises by {lit}`tableStep` over the first seven eighths, and falls
afterwards. -/
theorem tableDelta_succ (k : Nat) :
    tableDelta (k + 1) ≤ tableDelta k + tableStep k ∧
      (tableStep k ≠ 0 → tableDelta (k + 1) = tableDelta k + tableStep k) := by
  rcases Nat.lt_or_ge k 17 with hlt | hge
  · revert k
    decide
  · rw [tableDelta_eq_zero (by omega)]
    refine ⟨Nat.zero_le _, ?_⟩
    intro hstep
    refine absurd ?_ hstep
    exact List.getD_eq_default _ _ (by simp; omega)

/-- The table never rises by more than the arguments between two eighths that are
not adjacent. -/
theorem tableDelta_le {i j : Nat} (h : i + 2 ≤ j) :
    tableDelta j ≤ tableDelta i + 0x2000 * (j - i - 1) := by
  rcases Nat.lt_or_ge j 17 with hlt | hge
  · have hall : ∀ j < 17, ∀ i < j, i + 2 ≤ j →
        tableDelta j ≤ tableDelta i + 0x2000 * (j - i - 1) := by
      decide
    exact hall j hlt i (by omega) h
  · rw [tableDelta_eq_zero hge]
    exact Nat.zero_le _

/-- The stage subtracts the table entry of the eighth, without a borrow. -/
theorem gelu_add_tableDelta (x : Word) :
    (gelu x).toNat + tableDelta (segment x) = x.toNat := by
  have heighth : (fractionEighth x).toNat = segment x % 8 := by
    rw [fractionEighth, BitVec.extractLsb'_toNat, Nat.shiftRight_eq_div_pow, segment]
  have hunit : (integerPart x).toNat = segment x / 8 := by
    rw [integerPart, BitVec.extractLsb'_toNat, Nat.shiftRight_eq_div_pow, segment]
    omega
  have hlow : segment x % 8 < 8 := Nat.mod_lt _ (by decide)
  rcases decrement_bounds hlow (segment x / 8) with ⟨hnonneg, hle⟩
  have hseg : segment x = x.toNat / 0x2000 := rfl
  rw [gelu_eq_sub, heighth, hunit, tableDelta]
  generalize decrement _ _ = entry at hnonneg hle ⊢
  rcases Int.eq_ofNat_of_zero_le hnonneg with ⟨d, rfl⟩
  have hbound : 256 * d ≤ x.toNat := by
    omega
  have hsmall : (BitVec.ofNat 32 (256 * d)).toNat = 256 * d := by
    rw [BitVec.toNat_ofNat, Nat.mod_eq_of_lt (by omega)]
  rw [Int.toNat_natCast, BitVec.toNat_sub_of_le (by rw [BitVec.le_def, hsmall]; exact hbound),
    hsmall]
  omega

/-- The larger argument lies in the next eighth, by less than the step of the
table. -/
def JustBehindStep (x y : Word) : Prop :=
  segment y = segment x + 1 ∧ y.toNat - x.toNat < tableStep (segment x)

instance (x y : Word) : Decidable (JustBehindStep x y) :=
  inferInstanceAs (Decidable (_ ∧ _))

/-- The stage keeps the order of two arguments unless they lie just before and just
behind a rising step of the table. -/
theorem gelu_le_iff {x y : Word} (h : x ≤ y) : gelu x ≤ gelu y ↔ ¬ JustBehindStep x y := by
  have hxy : x.toNat ≤ y.toNat := h
  have hx := gelu_add_tableDelta x
  have hy := gelu_add_tableDelta y
  have hsegx : segment x = x.toNat / 0x2000 := rfl
  have hsegy : segment y = y.toNat / 0x2000 := rfl
  rw [BitVec.le_def]
  have hcases : segment y = segment x ∨ segment y = segment x + 1 ∨
      segment x + 2 ≤ segment y := by
    omega
  rcases hcases with heq | hnext | hfar
  · rw [heq] at hy
    have hstep : ¬ JustBehindStep x y := by
      rintro ⟨hseg, _⟩
      omega
    exact ⟨fun _ => hstep, fun _ => by omega⟩
  · rcases tableDelta_succ (segment x) with ⟨hle, heq⟩
    rw [hnext] at hy
    constructor
    · rintro hmono ⟨_, hclose⟩
      have hrise := heq (by omega)
      omega
    · intro hstep
      have hclose : tableStep (segment x) ≤ y.toNat - x.toNat := by
        by_contra hlt
        exact hstep ⟨hnext, by omega⟩
      omega
  · have hle := tableDelta_le hfar
    have hstep : ¬ JustBehindStep x y := by
      rintro ⟨hseg, _⟩
      omega
    exact ⟨fun _ => hstep, fun _ => by omega⟩

/-- A pair across the start of the second eighth that is not close to it. -/
theorem gelu_le_apart : gelu 0x1fff ≤ gelu 0x2e00 ↔ ¬ JustBehindStep 0x1fff 0x2e00 :=
  gelu_le_iff (by decide)

/-- The last argument of the first eighth and the first one of the second are
exchanged. -/
theorem gelu_reverses :
    (0x1fff : Word) ≤ 0x2000 ∧ (0x2000 : Word).toNat < 2 ^ 31 ∧
      ¬ gelu 0x1fff ≤ gelu 0x2000 := by
  decide

end Software
end AcceleratorSoc
