import Mathlib.Algebra.Order.Field.Basic
import Mathlib.Algebra.Order.Field.Rat
import Mathlib.Tactic.Linarith
import Mathlib.Tactic.NormNum
import AcceleratorSoc.Clocked.Loop

/-!
# The checker of the high-level model

{lit}`compare` computes a reference product and compares it with the result of the
array, element by element.  {lit}`relative_err` divides the absolute error by the
reference value with its sign, so a negative reference makes every error pass.
Arithmetic is exact.

Main results:

- Theorem {lit}`compare_eq_true_iff`: the verdict, from the elements with a positive
  reference value.
- Theorem {lit}`errAt_visitAll`: the element reported is the first one that fails.
- Theorem {lit}`compare_sound_iff`: when the verdict is the one a relative bound on all
  elements calls for.
-/

namespace AcceleratorSoc
namespace Hls

open Clocked

variable {K : Type*} [Field K]

/-- {lit}`FEAT_ROW`, {lit}`FEAT_COL` and {lit}`TMPL_COL`. -/
def featRow : Nat := 32
/-- {lit}`FEAT_COL`. -/
def featCol : Nat := 32
/-- {lit}`TMPL_COL`. -/
def tmplCol : Nat := 32

/-- The global arrays that {lit}`compare` reads. -/
structure CheckInput (K : Type*) where
  feat : Int → K
  tmpl : Int → K
  bias : Int → K
  res : Int → K

/-- The local variables of {lit}`compare`; the error position is not set before the
first error. -/
structure CheckState (K : Type*) where
  correctFlag : Bool
  errAt : Option (Nat × Nat)
  ref : Int → K

namespace CheckInput

/-- The innermost loop and the bias. -/
def refValue (g : CheckInput K) (r1 c2 : Nat) : K :=
  (List.range featCol).foldl
    (fun (tmp : K) (r2 : Nat) =>
      tmp + g.feat ((r1 : Int) * featCol + r2) * g.tmpl ((r2 : Int) * tmplCol + c2)) 0 +
    g.bias r1

/-- An element of the product of {lit}`feat` and {lit}`tmpl`, plus bias. -/
def reference (g : CheckInput K) (r1 c2 : Nat) : K :=
  ∑ r2 ∈ Finset.range featCol,
    g.feat ((r1 : Int) * featCol + r2) * g.tmpl ((r2 : Int) * tmplCol + c2) + g.bias r1

/-- The loop computes the reference entry. -/
theorem refValue_eq (g : CheckInput K) (r1 c2 : Nat) : g.refValue r1 c2 = g.reference r1 c2 := by
  rw [refValue, Loop.foldl_add_range, zero_add, reference]

variable [LinearOrder K]

/-- {lit}`relative_err`: the error over the reference, with its sign. -/
def relativeErr (ref val : K) : K :=
  let err := val - ref
  let err := if err < 0 then -err else err
  err / ref

/-- The body of the two outer loops. -/
def visit (g : CheckInput K) (s : CheckState K) (r1 c2 : Nat) : CheckState K :=
  let ref := Function.update s.ref ((r1 : Int) * tmplCol + c2) (g.refValue r1 c2)
  if relativeErr (ref ((r1 : Int) * tmplCol + c2)) (g.res ((r1 : Int) * tmplCol + c2)) >
      1 / 100 then
    { correctFlag := false
      errAt := if s.correctFlag then some (r1, c2) else s.errAt
      ref := ref }
  else { s with ref := ref }

/-- The two outer loops. -/
def visitAll (g : CheckInput K) (s : CheckState K) : CheckState K :=
  (List.range featRow).foldl
    (fun s (r1 : Nat) =>
      (List.range tmplCol).foldl (fun s (c2 : Nat) => g.visit s r1 c2) s) s

/-- The verdict, from whatever {lit}`ref` held. -/
def compare (g : CheckInput K) (ref : Int → K) : Bool :=
  (g.visitAll { correctFlag := true, errAt := none, ref := ref }).correctFlag

/-! ## The verdict -/

/-- The element at row {lit}`x.1` and column {lit}`x.2` is reported as an error. -/
def fails (g : CheckInput K) (x : Nat × Nat) : Bool :=
  decide (relativeErr (g.refValue x.1 x.2) (g.res ((x.1 : Int) * tmplCol + x.2)) > 1 / 100)

/-- The elements in the order of the loops. -/
def order : List (Nat × Nat) :=
  (List.range featRow).flatMap fun (r1 : Nat) =>
    (List.range tmplCol).map fun (c2 : Nat) => (r1, c2)

/-- The loops visit every entry. -/
theorem mem_order (x : Nat × Nat) : x ∈ order ↔ x.1 < featRow ∧ x.2 < tmplCol := by
  simp only [order, List.mem_flatMap, List.mem_map, List.mem_range]
  constructor
  · rintro ⟨r, hr, c, hc, rfl⟩
    exact ⟨hr, hc⟩
  · rintro ⟨hr, hc⟩
    exact ⟨x.1, hr, x.2, hc, rfl⟩

/-- They do so one entry after the other. -/
theorem visitAll_eq_foldl (g : CheckInput K) (s : CheckState K) :
    g.visitAll s = order.foldl (fun s (x : Nat × Nat) => g.visit s x.1 x.2) s := by
  simp only [visitAll, order, List.foldl_flatMap, List.foldl_map]

/-- What one element does to the verdict and to the position of the first error. -/
theorem visit_verdict (g : CheckInput K) (s : CheckState K) (x : Nat × Nat) :
    (g.visit s x.1 x.2).correctFlag = (s.correctFlag && !g.fails x) ∧
      (g.visit s x.1 x.2).errAt =
        if s.correctFlag && g.fails x then some x else s.errAt := by
  cases hfails : g.fails x
  · have hpass := of_decide_eq_false hfails
    simp only [visit, Function.update_self, if_neg hpass]
    simp
  · have hfail := of_decide_eq_true hfails
    simp only [visit, Function.update_self, if_pos hfail]
    cases s.correctFlag <;> simp

/-- The verdict over a list of elements. -/
theorem correctFlag_foldl (g : CheckInput K) (l : List (Nat × Nat)) (s : CheckState K) :
    (l.foldl (fun s (x : Nat × Nat) => g.visit s x.1 x.2) s).correctFlag =
      (s.correctFlag && l.all fun x => !g.fails x) := by
  induction l generalizing s with
  | nil => simp
  | cons x l ih => rw [List.foldl_cons, ih, (g.visit_verdict s x).1, List.all_cons, Bool.and_assoc]

/-- The position of the first error over a list of elements. -/
theorem errAt_foldl (g : CheckInput K) (l : List (Nat × Nat)) (s : CheckState K) :
    (l.foldl (fun s (x : Nat × Nat) => g.visit s x.1 x.2) s).errAt =
      if s.correctFlag then (l.find? g.fails).or s.errAt else s.errAt := by
  induction l generalizing s with
  | nil => simp
  | cons x l ih =>
      rw [List.foldl_cons, ih, (g.visit_verdict s x).1, (g.visit_verdict s x).2]
      cases hflag : s.correctFlag
      · simp
      · cases hfails : g.fails x
        · simp [hfails]
        · simp [hfails]

/-- The reported position is that of the first element that fails, row by row. -/
theorem errAt_visitAll (g : CheckInput K) (ref : Int → K) :
    (g.visitAll { correctFlag := true, errAt := none, ref := ref }).errAt =
      order.find? g.fails := by
  rw [visitAll_eq_foldl, errAt_foldl]
  simp

/-! ## Soundness -/

variable [IsStrictOrderedRing K]

/-- The absolute error, over the reference value with its sign. -/
theorem relativeErr_eq (ref val : K) : relativeErr ref val = |val - ref| / ref := by
  rcases lt_or_ge (val - ref) 0 with hneg | hpos
  · rw [relativeErr, if_pos hneg, abs_of_neg hneg]
  · rw [relativeErr, if_neg (not_lt.mpr hpos), abs_of_nonneg hpos]

/-- A bound on the relative error says nothing about a negative reference value. -/
theorem relativeErr_le_iff {ref val bound : K} (hne : ref ≠ 0) (hbound : 0 ≤ bound) :
    relativeErr ref val ≤ bound ↔ (0 < ref → |val - ref| ≤ bound * |ref|) := by
  rw [relativeErr_eq]
  rcases lt_or_gt_of_ne hne with hneg | hpos
  · have hquot : |val - ref| / ref ≤ 0 := div_nonpos_of_nonneg_of_nonpos (abs_nonneg _) hneg.le
    constructor
    · exact fun _ hpos => absurd hpos (not_lt.mpr hneg.le)
    · exact fun _ => hquot.trans hbound
  · rw [div_le_iff₀ hpos, abs_of_pos hpos]
    exact ⟨fun h _ => h, fun h => h hpos⟩

/-- The result lies within one percent of the reference value. -/
def Within (g : CheckInput K) (r1 c2 : Nat) : Prop :=
  |g.res ((r1 : Int) * tmplCol + c2) - g.reference r1 c2| ≤ 1 / 100 * |g.reference r1 c2|

/-- An element passes when it lies within one percent or its reference value is
negative. -/
theorem fails_eq_false_iff {g : CheckInput K} {r1 c2 : Nat} (hne : g.reference r1 c2 ≠ 0) :
    g.fails (r1, c2) = false ↔ (0 < g.reference r1 c2 → g.Within r1 c2) := by
  have hbound : (0 : K) ≤ 1 / 100 := by
    norm_num
  rw [fails, decide_eq_false_iff_not, not_lt, refValue_eq, relativeErr_le_iff hne hbound, Within]

/-- The checker passes when every element with a positive reference value lies within
one percent of it. -/
theorem compare_eq_true_iff {g : CheckInput K}
    (hne : ∀ r1 < featRow, ∀ c2 < tmplCol, g.reference r1 c2 ≠ 0) (ref : Int → K) :
    g.compare ref = true ↔
      ∀ r1 < featRow, ∀ c2 < tmplCol, 0 < g.reference r1 c2 → g.Within r1 c2 := by
  rw [compare, visitAll_eq_foldl, correctFlag_foldl, Bool.true_and, List.all_eq_true]
  constructor
  · intro h r1 hr c2 hc
    have hpass := h (r1, c2) ((mem_order _).mpr ⟨hr, hc⟩)
    rw [Bool.not_eq_true'] at hpass
    exact (fails_eq_false_iff (hne r1 hr c2 hc)).mp hpass
  · rintro h ⟨r1, c2⟩ hx
    rcases (mem_order (r1, c2)).mp hx with ⟨hr, hc⟩
    rw [Bool.not_eq_true']
    exact (fails_eq_false_iff (hne r1 hr c2 hc)).mpr (h r1 hr c2 hc)

/-- The checker passes exactly the results within one percent of the reference. -/
def Sound (g : CheckInput K) (ref : Int → K) : Prop :=
  g.compare ref = true ↔ ∀ r1 < featRow, ∀ c2 < tmplCol, g.Within r1 c2

/-- The checker is sound on an input when all results for negative reference values lie
within one percent, or one for a positive value does not. -/
theorem compare_sound_iff (g : CheckInput K) (ref : Int → K)
    (hne : ∀ r1 < featRow, ∀ c2 < tmplCol, g.reference r1 c2 ≠ 0) :
    g.Sound ref ↔
      (∀ r1 < featRow, ∀ c2 < tmplCol, g.reference r1 c2 < 0 → g.Within r1 c2) ∨
        ∃ r1 < featRow, ∃ c2 < tmplCol, 0 < g.reference r1 c2 ∧ ¬ g.Within r1 c2 := by
  rw [Sound, compare_eq_true_iff hne ref]
  constructor
  · intro h
    by_cases hpos : ∀ r1 < featRow, ∀ c2 < tmplCol, 0 < g.reference r1 c2 → g.Within r1 c2
    · exact Or.inl fun r1 hr c2 hc _ => h.mp hpos r1 hr c2 hc
    · push Not at hpos
      exact Or.inr hpos
  · rintro (hneg | ⟨r1, hr, c2, hc, hpos, hfar⟩)
    · constructor
      · intro hpos r1 hr c2 hc
        rcases lt_or_gt_of_ne (hne r1 hr c2 hc) with hlt | hgt
        · exact hneg r1 hr c2 hc hlt
        · exact hpos r1 hr c2 hc hgt
      · exact fun h r1 hr c2 hc _ => h r1 hr c2 hc
    · constructor
      · exact fun h => absurd (h r1 hr c2 hc hpos) hfar
      · exact fun h => absurd (h r1 hr c2 hc) hfar

/-- Matrices of minus ones and ones with the biases of {lit}`init`, and a result that
was never written. -/
def unwritten : CheckInput ℚ where
  feat := fun _ => -1
  tmpl := fun _ => 1
  bias := fun i => i
  res := fun _ => 0

/-- The reference entries of this input. -/
theorem reference_unwritten (r1 c2 : Nat) : unwritten.reference r1 c2 = (r1 : ℚ) - 32 := by
  simp only [reference, unwritten, featCol, mul_one, Finset.sum_const, Finset.card_range,
    nsmul_eq_mul]
  push_cast
  linarith

/-- All of them are negative. -/
theorem reference_unwritten_neg {r1 : Nat} (hr : r1 < featRow) (c2 : Nat) :
    unwritten.reference r1 c2 < 0 := by
  have hlt : (r1 : ℚ) < 32 := by exact_mod_cast hr
  rw [reference_unwritten]
  linarith

/-- No entry is within its bound. -/
theorem not_within_unwritten {r1 : Nat} (hr : r1 < featRow) (c2 : Nat) :
    ¬ unwritten.Within r1 c2 := by
  have hneg := reference_unwritten_neg hr c2
  rw [Within, abs_of_neg hneg, unwritten, zero_sub, abs_neg, ← unwritten, abs_of_neg hneg]
  linarith

/-- The comparison accepts the unwritten output, in which no entry is right. -/
theorem compare_sound_unwritten : ¬ unwritten.Sound 0 := by
  rw [compare_sound_iff unwritten 0 fun r1 hr c2 _ => (reference_unwritten_neg hr c2).ne]
  rintro (hneg | ⟨r1, hr, c2, _, hpos, _⟩)
  · have hfirst : 0 < featRow := by
      decide
    exact not_within_unwritten hfirst 0
      (hneg 0 hfirst 0 (by decide) (reference_unwritten_neg hfirst 0))
  · exact absurd hpos (not_lt.mpr (reference_unwritten_neg hr c2).le)

/-- The checker passes a result of zeros although every element is a hundred percent
off. -/
theorem unwritten_passes :
    (∀ r1 < featRow, ∀ c2 < tmplCol, unwritten.reference r1 c2 ≠ 0) ∧
      unwritten.compare 0 = true ∧ ∀ r1 < featRow, ∀ c2, ¬ unwritten.Within r1 c2 := by
  have hne : ∀ r1 < featRow, ∀ c2 < tmplCol, unwritten.reference r1 c2 ≠ 0 :=
    fun r1 hr c2 _ => (reference_unwritten_neg hr c2).ne
  refine ⟨hne, ?_, fun r1 hr c2 => not_within_unwritten hr c2⟩
  rw [compare_eq_true_iff hne]
  exact fun r1 hr c2 _ hpos => absurd hpos (not_lt.mpr (reference_unwritten_neg hr c2).le)

end CheckInput

end Hls
end AcceleratorSoc
