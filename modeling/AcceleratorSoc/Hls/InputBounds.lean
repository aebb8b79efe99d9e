import AcceleratorSoc.Hls.Gemm

/-!
# Bounds of the matrix reads

The feeding loops run over all {lit}`SIDE_LEN` rows and columns of the array,
whatever the shape of the operands, and the guard of the second matrix counts
{lit}`row` instead of {lit}`col`.

Main results:

- Theorem {lit}`Shape.aRead_inBounds_iff` and {lit}`Shape.bRead_inBounds_iff`: when a
  read of one iteration stays inside its matrix.
- Theorem {lit}`readsInBounds_iff`: the shapes all of whose reads do.
-/

namespace AcceleratorSoc
namespace Hls

/-- Every element read by the feeding loops belongs to its matrix. -/
def ReadsInBounds (s : Shape) : Prop :=
  ∀ i j : Nat, (i : Int) < totalPulse s.row s.col s.col1 → j < sideLen →
    (∀ k, aRead s.col i j = some k → 0 ≤ k ∧ k < s.row * s.col) ∧
      ∀ k, bRead s.row s.col1 i j = some k → 0 ≤ k ∧ k < s.col * s.col1

namespace Shape

variable {s : Shape} {i j : Nat}

/-- A read for row {lit}`j` of the array stays inside the first matrix when the
matrix has a row {lit}`j`. -/
theorem aRead_inBounds_iff (hi : (i : Int) < 2 ^ 17) (hj : j < sideLen) :
    (∀ k, aRead s.col i j = some k → 0 ≤ k ∧ k < s.row * s.col) ↔
      (j ≤ i → i < j + s.col → j < s.row) := by
  rw [aRead_eq hi hj]
  by_cases hw : j ≤ i ∧ i < j + s.col
  · rcases Nat.exists_eq_add_of_le hw.1 with ⟨d, rfl⟩
    have hd : d < s.col := by omega
    have hidx : (j * s.col + ((j + d : Nat) : Int) - j : Int) = ((j * s.col + d : Nat) : Int) := by
      push_cast
      omega
    have hrange : j * s.col + d < s.row * s.col ↔ j < s.row := by
      constructor
      · intro hlt
        exact Nat.lt_of_mul_lt_mul_right (Nat.lt_of_le_of_lt (Nat.le_add_right _ d) hlt)
      · intro hlt
        calc
          j * s.col + d < (j + 1) * s.col := by rw [Nat.succ_mul]; omega
          _ ≤ s.row * s.col := Nat.mul_le_mul_right _ hlt
    rw [if_pos hw, hidx]
    constructor
    · intro h _ _
      exact hrange.mp (by exact_mod_cast (h _ rfl).2)
    · rintro h k hk
      obtain rfl := Option.some.inj hk
      exact ⟨Int.natCast_nonneg _, by exact_mod_cast hrange.mpr (h hw.1 hw.2)⟩
  · rw [if_neg hw]
    constructor
    · intro _ hle hlt
      exact absurd ⟨hle, hlt⟩ hw
    · intro _ k hk
      exact absurd hk (by simp)

/-- A read for column {lit}`j` of the array stays inside the second matrix when its
row-major address does. -/
theorem bRead_inBounds_iff (hi : (i : Int) < 2 ^ 17) (hj : j < sideLen) :
    (∀ k, bRead s.row s.col1 i j = some k → 0 ≤ k ∧ k < s.col * s.col1) ↔
      (j ≤ i → i < j + s.row → (i - j) * s.col1 + j < s.col * s.col1) := by
  rw [bRead_eq hi hj]
  by_cases hw : j ≤ i ∧ i < j + s.row
  · have hidx : (((i : Int) - j) * s.col1 + j : Int) = (((i - j) * s.col1 + j : Nat) : Int) := by
      push_cast [Nat.cast_sub hw.1]
      rfl
    rw [if_pos hw, hidx]
    constructor
    · intro h _ _
      exact_mod_cast (h _ rfl).2
    · rintro h k hk
      obtain rfl := Option.some.inj hk
      exact ⟨Int.natCast_nonneg _, by exact_mod_cast h hw.1 hw.2⟩
  · rw [if_neg hw]
    constructor
    · intro _ hle hlt
      exact absurd ⟨hle, hlt⟩ hw
    · intro _ k hk
      exact absurd hk (by simp)

end Shape

/-- The reads of a call in terms of rows and row-major addresses. -/
theorem readsInBounds_iff_nat (s : Shape) :
    ReadsInBounds s ↔
      ∀ i j, i + 2 < s.col + s.row + s.col1 → j < sideLen → j ≤ i →
        (i < j + s.col → j < s.row) ∧
          (i < j + s.row → (i - j) * s.col1 + j < s.col * s.col1) := by
  have htotal := s.totalPulse_eq
  have hpulse : ∀ i : Nat, (i : Int) < totalPulse s.row s.col s.col1 ↔
      i + 2 < s.col + s.row + s.col1 := by
    intro i
    omega
  constructor
  · intro h i j hi hj hle
    have hlt := (hpulse i).mpr hi
    rcases h i j hlt hj with ⟨ha, hb⟩
    exact ⟨(Shape.aRead_inBounds_iff (s.lt_of_pulse hlt) hj).mp ha hle,
      (Shape.bRead_inBounds_iff (s.lt_of_pulse hlt) hj).mp hb hle⟩
  · intro h i j hi hj
    have hlt := (hpulse i).mp hi
    exact ⟨(Shape.aRead_inBounds_iff (s.lt_of_pulse hi) hj).mpr fun hle => (h i j hlt hj hle).1,
      (Shape.bRead_inBounds_iff (s.lt_of_pulse hi) hj).mpr fun hle => (h i j hlt hj hle).2⟩

/-- The only shapes that are read within bounds are the one-by-one product and tall
enough products with a full first matrix. -/
theorem readsInBounds_iff (s : Shape) :
    ReadsInBounds s ↔
      s.row = 1 ∧ s.col = 1 ∧ s.col1 = 1 ∨
        s.row = sideLen ∧ sideLen ≤ (s.col + 1 - sideLen) * s.col1 := by
  have hrow := s.row_le
  have hrowpos := s.row_pos
  have hcolpos := s.col_pos
  have hcol1pos := s.col1_pos
  rw [readsInBounds_iff_nat]
  simp only [sideLen] at *
  constructor
  · intro h
    -- Row `row` of the array is fed with an element behind the last one.
    have hfull : s.row = 36 ∨ s.col = 1 ∧ s.col1 = 1 := by
      by_contra hshort
      have hread := (h s.row s.row (by omega) (by omega) le_rfl).1 (by omega)
      omega
    -- Row `col` of the second matrix is fed as soon as `col < row`.
    have htall : s.row ≤ s.col := by
      by_contra hwide
      have hread := (h s.col 0 (by omega) (by omega) (by omega)).2 (by omega)
      simp at hread
    rcases hfull with hfull | hone
    · right
      have hread := (h 70 35 (by omega) (by omega) (by omega)).2 (by omega)
      rcases Nat.exists_eq_add_of_le (hfull ▸ htall) with ⟨d, hd⟩
      refine ⟨hfull, ?_⟩
      rw [hd, Nat.add_mul] at hread
      have hsub : s.col + 1 - 36 = d + 1 := by omega
      rw [hsub, Nat.succ_mul]
      omega
    · left
      omega
  · rintro (⟨hr, hc, hc1⟩ | ⟨hfull, htall⟩) i j hi hj hle
    · rw [hr, hc, hc1] at *
      constructor <;> intro _ <;> omega
    · refine ⟨fun _ => by omega, ?_⟩
      intro hlt
      have hd : 36 ≤ s.col := by
        by_contra hshort
        have hzero : s.col + 1 - 36 = 0 := by omega
        rw [hzero, Nat.zero_mul] at htall
        omega
      rcases Nat.exists_eq_add_of_le hd with ⟨d, hcol⟩
      have hsub : s.col + 1 - 36 = d + 1 := by omega
      rw [hsub, Nat.succ_mul] at htall
      have hprod : (i - j) * s.col1 ≤ 35 * s.col1 := Nat.mul_le_mul_right _ (by omega)
      rw [hcol, Nat.add_mul]
      omega

/-- The shape of the repository's own test. -/
def testShape : Shape where
  row := 32
  col := 32
  col1 := 32
  row_pos := by decide
  row_le := by decide
  col_pos := by decide
  col_lt := by decide
  col1_pos := by decide
  col1_le := by decide

/-- In pulse 32 of the test, row 32 of the array is fed with an element behind the
last one of the first matrix. -/
theorem testShape_outOfBounds :
    aRead testShape.col 32 32 = some (testShape.row * testShape.col) ∧
      ¬ ReadsInBounds testShape := by
  have hread : aRead testShape.col 32 32 = some (testShape.row * testShape.col) := by
    decide
  refine ⟨hread, ?_⟩
  intro h
  have hbound := ((h 32 32 (by decide) (by decide)).1 _ hread).2
  exact absurd hbound (by decide)

end Hls
end AcceleratorSoc
