import Mathlib.Algebra.Order.Ring.Int
import AcceleratorSoc.Hls.SystolicArray

/-!
# The matrix product of the high-level model

{lit}`systolic_array` feeds two matrices through the array, skewed by one pulse per
row and column, and adds a bias to the accumulators.  Dimensions are 16-bit
unsigned numbers; products and sums of the arbitrary-precision type are exact until
they are stored in an {lit}`int`.  The matrices are read from memory that extends
beyond their last element.

Main results:

- Theorem {lit}`systolicArray_out`: the array multiplies as many terms as both
  {lit}`row` and {lit}`col` allow.
- Theorem {lit}`gemm_exact_iff`: the output is the matrix product plus bias exactly
  when the terms beyond {lit}`row` cancel.
-/

namespace AcceleratorSoc
namespace Hls

open Clocked

/-- The length of a side of the systolic array. -/
def sideLen : Nat := 36

/-- A value stored in an {lit}`int`. -/
def asInt (x : Int) : Int :=
  x.bmod (2 ^ 32)

/-- An index in range survives the conversion. -/
theorem asInt_eq {x : Int} (hlow : -2 ^ 31 ≤ x) (hhigh : x < 2 ^ 31) : asInt x = x :=
  Int.bmod_eq_of_le (by omega) (by omega)

/-- Number of pulses until the last cell has seen its last operands. -/
def totalPulse (row col col1 : Nat) : Int :=
  asInt (col + row + col1 - 2)

/-! ## Feeding -/

/-- Index of the read of {lit}`A`. -/
def aIndex (col : Nat) (i j : Int) : Int :=
  asInt (j * col + i - j)

/-- Index of the read of {lit}`B`. -/
def bIndex (col1 : Nat) (i j : Int) : Int :=
  asInt ((i - j) * col1 + j)

/-- The element of {lit}`din_a` read for row {lit}`j` in pulse {lit}`i`, if any. -/
def aRead (col : Nat) (i j : Int) : Option Int :=
  if aIndex col i j ≥ j * col ∧ aIndex col i j < (j + 1) * col then some (aIndex col i j)
  else none

/-- The element of {lit}`din_b` read for column {lit}`j` in pulse {lit}`i`, if
any. -/
def bRead (row col1 : Nat) (i j : Int) : Option Int :=
  if i ≥ j ∧ bIndex col1 i j ≤ (row - 1) * col1 + j then some (bIndex col1 i j) else none

variable {T : Type*}

/-- The vectors {lit}`a_vec` and {lit}`b_vec` of pulse {lit}`i`. -/
def aVec [Zero T] (col : Nat) (dinA : Int → T) (i : Nat) (j : Int) : T :=
  (aRead col i j).elim 0 dinA

/-- What is fed in from above. -/
def bVec [Zero T] (row col1 : Nat) (dinB : Int → T) (i : Nat) (j : Int) : T :=
  (bRead row col1 i j).elim 0 dinB

/-- The output loops. -/
def copyOut [Add T] (row col1 : Nat) (pe : SystolicArray T) (bias out : Int → T) : Int → T :=
  let rows := if row < sideLen then row else sideLen
  let cols := if col1 < sideLen then col1 else sideLen
  (List.range rows).foldl
    (fun out (i : Nat) =>
      (List.range cols).foldl
        (fun out (j : Nat) =>
          Function.update out ((i : Int) * cols + j) ((pe ((i : Int), (j : Int))).val + bias i))
        out) out

/-- The whole call: the global array and the output memory afterwards. -/
def systolicArray [CommRing T] (row col col1 : Nat) (dinA dinB bias : Int → T)
    (systolicMatrix : SystolicArray T) (out : Int → T) : SystolicArray T × (Int → T) :=
  let pe := pulses sideLen (aVec col dinA) (bVec row col1 dinB) systolicMatrix
    (totalPulse row col col1).toNat
  (pe, copyOut row col1 pe bias out)

/-- The dimensions of a call: {lit}`row × col` times {lit}`col × col1`, with 16-bit
dimensions and a result that fits into the array. -/
structure Shape where
  row : Nat
  col : Nat
  col1 : Nat
  row_pos : 1 ≤ row
  row_le : row ≤ sideLen
  col_pos : 1 ≤ col
  col_lt : col < 2 ^ 16
  col1_pos : 1 ≤ col1
  col1_le : col1 ≤ sideLen

namespace Shape

variable (s : Shape)

/-- {lit}`total_pulse` is exact. -/
theorem totalPulse_eq : totalPulse s.row s.col s.col1 = s.col + s.row + s.col1 - 2 := by
  have hrow := s.row_le
  have hcol := s.col_lt
  have hcol1 := s.col1_le
  have hrowpos := s.row_pos
  have hcolpos := s.col_pos
  unfold sideLen at hrow hcol1
  exact asInt_eq (by omega) (by omega)

/-- No pulse number comes near the limits of {lit}`int`. -/
theorem lt_of_pulse {i : Nat} (hi : (i : Int) < totalPulse s.row s.col s.col1) :
    (i : Int) < 2 ^ 17 := by
  have hrow := s.row_le
  have hcol := s.col_lt
  have hcol1 := s.col1_le
  rw [s.totalPulse_eq] at hi
  unfold sideLen at hrow hcol1
  omega

variable {s} {i j : Nat}

/-- The index into {lit}`A` does not overflow. -/
theorem aIndex_eq (hi : (i : Int) < 2 ^ 17) (hj : j < sideLen) :
    aIndex s.col i j = j * s.col + i - j := by
  have hcol := s.col_lt
  have hprod : j * s.col ≤ 35 * 2 ^ 16 := Nat.mul_le_mul (Nat.le_of_lt_succ hj) hcol.le
  have hcast : (j : Int) * s.col = ((j * s.col : Nat) : Int) := (Nat.cast_mul j s.col).symm
  rw [aIndex, hcast]
  unfold sideLen at hj
  exact asInt_eq (by omega) (by omega)

/-- The index into {lit}`B` does not overflow. -/
theorem bIndex_eq (hi : (i : Int) < 2 ^ 17) (hj : j < sideLen) :
    bIndex s.col1 i j = (i - j) * s.col1 + j := by
  have hcol1 : (s.col1 : Int) ≤ 36 := by exact_mod_cast s.col1_le
  have hpos : (0 : Int) ≤ s.col1 := Int.natCast_nonneg _
  unfold sideLen at hj
  have hhigh : ((i : Int) - j) * s.col1 ≤ 2 ^ 17 * 36 :=
    mul_le_mul (by omega) hcol1 hpos (by omega)
  have hlow : (-36 : Int) * 36 ≤ ((i : Int) - j) * s.col1 := by
    calc
      (-36 : Int) * 36 ≤ -36 * s.col1 := by omega
      _ ≤ ((i : Int) - j) * s.col1 := mul_le_mul_of_nonneg_right (by omega) hpos
  exact asInt_eq (by omega) (by omega)

/-- Row {lit}`j` of the first matrix enters during the {lit}`col` pulses from pulse
{lit}`j` on. -/
theorem aRead_eq (hi : (i : Int) < 2 ^ 17) (hj : j < sideLen) :
    aRead s.col i j = if j ≤ i ∧ i < j + s.col then some ((j * s.col + i - j : Int))
      else none := by
  have hguard : (aIndex s.col i j ≥ j * s.col ∧ aIndex s.col i j < (j + 1) * s.col) ↔
      j ≤ i ∧ i < j + s.col := by
    rw [aIndex_eq hi hj, add_mul, one_mul]
    omega
  rw [aRead, aIndex_eq hi hj] at *
  simp only [hguard]

/-- Column {lit}`j` of the second matrix enters during the {lit}`row` pulses from
pulse {lit}`j` on. -/
theorem bRead_eq (hi : (i : Int) < 2 ^ 17) (hj : j < sideLen) :
    bRead s.row s.col1 i j =
      if j ≤ i ∧ i < j + s.row then some (((i - j) * s.col1 + j : Int)) else none := by
  have hpos : (0 : Int) < s.col1 := by exact_mod_cast s.col1_pos
  have hguard : ((i : Int) ≥ j ∧ bIndex s.col1 i j ≤ (s.row - 1) * s.col1 + j) ↔
      j ≤ i ∧ i < j + s.row := by
    rw [bIndex_eq hi hj, Int.add_le_add_iff_right, mul_le_mul_iff_of_pos_right hpos]
    omega
  rw [bRead, bIndex_eq hi hj] at *
  simp only [hguard]

/-- The rows of {lit}`A` are fed in skewed. -/
theorem aVec_eq_skewed [Zero T] (dinA : Int → T) (hi : (i : Int) < 2 ^ 17)
    (hj : j < sideLen) :
    aVec s.col dinA i j = Systolic.skewed s.col (fun k => dinA (j * s.col + k)) j i := by
  rw [aVec, aRead_eq hi hj, Systolic.skewed]
  by_cases hw : j ≤ i ∧ i < j + s.col
  · have hidx : (j * s.col + i - j : Int) = j * s.col + ((i - j : Nat) : Int) := by omega
    rw [if_pos hw, if_pos hw, hidx]
    rfl
  · rw [if_neg hw, if_neg hw]
    rfl

/-- The columns of {lit}`B` are fed in skewed. -/
theorem bVec_eq_skewed [Zero T] (dinB : Int → T) (hi : (i : Int) < 2 ^ 17)
    (hj : j < sideLen) :
    bVec s.row s.col1 dinB i j =
      Systolic.skewed s.row (fun k => dinB (k * s.col1 + j)) j i := by
  rw [bVec, bRead_eq hi hj, Systolic.skewed]
  by_cases hw : j ≤ i ∧ i < j + s.row
  · have hidx : (i : Int) - j = ((i - j : Nat) : Int) := by omega
    rw [if_pos hw, if_pos hw, hidx]
    rfl
  · rw [if_neg hw, if_neg hw]
    rfl

end Shape

/-! ## The result -/

section Result

variable [CommRing T] (s : Shape) (dinA dinB bias : Int → T) (systolicMatrix : SystolicArray T)
  (out : Int → T)

/-- After the last pulse a cell of the result has added up as many products as both
streams bring. -/
theorem systolicArray_val {i j : Nat} (hi : i < s.row) (hj : j < s.col1) :
    ((systolicArray s.row s.col s.col1 dinA dinB bias systolicMatrix out).1 (i, j)).val =
      ∑ k ∈ Finset.range (min s.col s.row),
        dinA (i * s.col + k) * dinB (k * s.col1 + j) := by
  have hrow : i < sideLen := hi.trans_le s.row_le
  have hcol : j < sideLen := hj.trans_le s.col1_le
  have htotal := s.totalPulse_eq
  have hpulses : ∀ t ∈ Finset.range (totalPulse s.row s.col s.col1).toNat,
      ∀ k ≤ t, (k : Int) < 2 ^ 17 := by
    intro t ht k hk
    rw [Finset.mem_range] at ht
    exact s.lt_of_pulse (by omega)
  have hlast : i + j + min s.col s.row ≤ (totalPulse s.row s.col s.col1).toNat := by
    rw [htotal]
    omega
  calc
    _ = ∑ t ∈ Finset.range (totalPulse s.row s.col s.col1).toNat,
        Systolic.skewed (min s.col s.row)
          (fun k => dinA (i * s.col + k) * dinB (k * s.col1 + j)) (i + j) t := by
      refine (pulses_val sideLen _ _ systolicMatrix _ ⟨i, hrow⟩ ⟨j, hcol⟩).trans ?_
      apply Finset.sum_congr rfl
      intro t ht
      have ha := Systolic.delayed_congr
        (fun k hk => Shape.aVec_eq_skewed (s := s) dinA (hpulses t ht k hk) hrow) j
      have hb := Systolic.delayed_congr
        (fun k hk => Shape.bVec_eq_skewed (s := s) dinB (hpulses t ht k hk) hcol) i
      rw [ha, hb, Systolic.delayed_skewed, Systolic.delayed_skewed, Nat.add_comm j i]
      exact Systolic.mul_skewed zero_mul mul_zero _ _ _ _ _ _
    _ = _ := Systolic.sum_skewed _ hlast

/-- Row-major addresses of distinct elements are distinct. -/
theorem index_inj {n i j k l : Nat} (hj : j < n) (hl : l < n)
    (h : (i : Int) * n + j = k * n + l) : i = k ∧ j = l := by
  have hnat : n * i + j = n * k + l := by
    rw [Nat.mul_comm n i, Nat.mul_comm n k]
    exact_mod_cast h
  have hdiv := congrArg (· / n) hnat
  have hmod := congrArg (· % n) hnat
  have hn : 0 < n := by omega
  simp only [Nat.mul_add_div hn, Nat.div_eq_of_lt hj, Nat.div_eq_of_lt hl,
    Nat.mul_add_mod, Nat.mod_eq_of_lt hj, Nat.mod_eq_of_lt hl, Nat.add_zero] at hdiv hmod
  exact ⟨hdiv, hmod⟩

/-- The result is copied out with its bias. -/
theorem copyOut_get (pe : SystolicArray T) {i j : Nat} (hi : i < s.row) (hj : j < s.col1) :
    copyOut s.row s.col1 pe bias out (i * s.col1 + j) = (pe (i, j)).val + bias i := by
  have hrows : (if s.row < sideLen then s.row else sideLen) = s.row := by
    have hle := s.row_le
    split_ifs <;> omega
  have hcols : (if s.col1 < sideLen then s.col1 else sideLen) = s.col1 := by
    have hle := s.col1_le
    split_ifs <;> omega
  have hloops : copyOut s.row s.col1 pe bias out =
      ((List.range s.row).flatMap fun (i : Nat) =>
        (List.range s.col1).map fun (j : Nat) => (i, j)).foldl
        (fun out (x : Nat × Nat) =>
          Function.update out ((x.1 : Int) * s.col1 + x.2)
            ((pe ((x.1 : Int), (x.2 : Int))).val + bias x.1)) out := by
    simp only [copyOut, hrows, hcols, List.foldl_flatMap, List.foldl_map]
  rw [hloops]
  refine Sweep.foldl_update_get (w := fun x : Nat × Nat => (x.1 : Int) * s.col1 + x.2)
    (v := fun x => (pe ((x.1 : Int), (x.2 : Int))).val + bias x.1) (a := (i, j)) ?_ ?_ out
  · simp only [List.mem_flatMap, List.mem_map, List.mem_range]
    exact ⟨i, hi, j, hj, rfl⟩
  · simp only [List.mem_flatMap, List.mem_map, List.mem_range]
    rintro _ ⟨k, _, l, hl, rfl⟩ heq
    rcases index_inj hl hj heq with ⟨rfl, rfl⟩
    rfl

/-- What the call leaves in the output memory. -/
theorem systolicArray_out {i j : Nat} (hi : i < s.row) (hj : j < s.col1) :
    (systolicArray s.row s.col s.col1 dinA dinB bias systolicMatrix out).2 (i * s.col1 + j) =
      ∑ k ∈ Finset.range (min s.col s.row), dinA (i * s.col + k) * dinB (k * s.col1 + j) +
        bias i := by
  rw [← systolicArray_val s dinA dinB bias systolicMatrix out hi hj]
  exact copyOut_get s bias out _ hi hj

/-- The output is the matrix product plus the bias. -/
def GemmExact (s : Shape) (dinA dinB bias : Int → T) (out : Int → T) : Prop :=
  ∀ i < s.row, ∀ j < s.col1, out (i * s.col1 + j) =
    ∑ k ∈ Finset.range s.col, dinA (i * s.col + k) * dinB (k * s.col1 + j) + bias i

/-- The output is the matrix product plus the bias exactly when, for every element,
the products from term {lit}`row` on add up to zero; there are none when
{lit}`col ≤ row`. -/
theorem gemm_exact_iff :
    GemmExact s dinA dinB bias
        (systolicArray s.row s.col s.col1 dinA dinB bias systolicMatrix out).2 ↔
      ∀ i < s.row, ∀ j < s.col1,
        ∑ k ∈ Finset.Ico s.row s.col, dinA (i * s.col + k) * dinB (k * s.col1 + j) = 0 := by
  have hsplit : ∀ z : Nat → T, ∑ k ∈ Finset.range s.col, z k =
      ∑ k ∈ Finset.range (min s.col s.row), z k + ∑ k ∈ Finset.Ico s.row s.col, z k := by
    intro z
    rcases le_total s.col s.row with hle | hle
    · rw [min_eq_left hle, Finset.Ico_eq_empty_of_le hle, Finset.sum_empty, add_zero]
    · rw [min_eq_right hle, Finset.sum_range_add_sum_Ico z hle]
  constructor
  · intro h i hi j hj
    have hout := h i hi j hj
    rw [systolicArray_out s dinA dinB bias systolicMatrix out hi hj, hsplit] at hout
    simpa using hout
  · intro h i hi j hj
    rw [systolicArray_out s dinA dinB bias systolicMatrix out hi hj, hsplit, h i hi j hj,
      add_zero]

end Result

/-- A row of two elements times a column of two. -/
def rowTimesColumn : Shape where
  row := 1
  col := 2
  col1 := 1
  row_pos := by decide
  row_le := by decide
  col_pos := by decide
  col_lt := by decide
  col1_pos := by decide
  col1_le := by decide

/-- The second product of a row of ones times a column of ones is dropped. -/
theorem rowTimesColumn_inexact :
    ¬ GemmExact rowTimesColumn (fun _ => (1 : Int)) (fun _ => 1) (fun _ => 0)
      (systolicArray 1 2 1 (fun _ => (1 : Int)) (fun _ => 1) (fun _ => 0)
        (fun _ => ProcessElement.reset) (fun _ => 0)).2 := by
  intro h
  have hexact := h 0 (by decide) 0 (by decide)
  have hout := systolicArray_out rowTimesColumn (fun _ => (1 : Int)) (fun _ => 1) (fun _ => 0)
    (fun _ => ProcessElement.reset) (fun _ => 0) (i := 0) (j := 0) (by decide) (by decide)
  have heq := hexact.symm.trans hout
  exact absurd heq (by decide)

end Hls
end AcceleratorSoc
