import Mathlib.Algebra.Ring.Defs
import AcceleratorSoc.Clocked.Sweep
import AcceleratorSoc.Clocked.Systolic

/-!
# The systolic array of the high-level model

{lit}`Systolic_Array<T, LEN>` keeps its cells in one array and updates them in
place, diagonal by diagonal from the lower right corner to the upper left one.
Cells are addressed by {lit}`int` row and column, as the source addresses them;
nothing in the definitions keeps an address inside the array.

Main results:

- Theorem {lit}`mem_peOrder`: a pulse visits exactly the cells of the array.
- Theorem {lit}`pulse_synchronous`: the loops of a pulse are one synchronous step.
- Theorem {lit}`toGrid_pulse`: a pulse moves all cells at once.
- Theorem {lit}`stream_law`: the registers of a cell after any number of pulses
  from reset.
-/

namespace AcceleratorSoc
namespace Hls

open Clocked

variable {T : Type*}

/-- Registers of one {lit}`Process_Element`. -/
@[ext]
structure ProcessElement (T : Type*) where
  a : T
  b : T
  val : T

namespace ProcessElement

/-- {lit}`ProcessElement::reset`. -/
def reset [Zero T] : ProcessElement T where
  a := 0
  b := 0
  val := 0

/-- {lit}`ProcessElement::process`: multiply, accumulate and hand the operands on. -/
def process [Add T] [Mul T] (p : ProcessElement T) (aI bI : T) : ProcessElement T where
  a := aI
  b := bI
  val := p.val + aI * bI

end ProcessElement

/-- The array {lit}`pe[LEN][LEN]`, addressed by row and column. -/
abbrev SystolicArray (T : Type*) :=
  Int × Int → ProcessElement T

/-! ## Diagonal order -/

/-- Number of cells on diagonal {lit}`i`. -/
def peNum (len : Nat) (i : Int) : Int :=
  if i - (len - 1) > 0 then 2 * len - 1 - i else i + 1

/-- {lit}`flag_middle`: the diagonal has a middle element. -/
def flagMiddle (i : Int) : Bool :=
  i % 2 == 0

/-- The loop is past the middle of its diagonal. -/
def changeSide (len : Nat) (i j : Int) : Bool :=
  decide (2 * j ≥ peNum len i)

/-- Row of the {lit}`j`-th cell visited on diagonal {lit}`i`.  All dividends are
nonnegative, where truncating and floor division agree. -/
def peRow (len : Nat) (i j : Int) : Int :=
  if flagMiddle i && !changeSide len i j then i / 2 - j
  else if !flagMiddle i && !changeSide len i j then (i - 1) / 2 - j
  else if flagMiddle i && changeSide len i j then i / 2 + j - (peNum len i - 1) / 2
  else (i - 1) / 2 + j - (peNum len i - 1) / 2

/-- Column of the {lit}`j`-th cell visited on diagonal {lit}`i`. -/
def peCol (len : Nat) (i j : Int) : Int :=
  if flagMiddle i && !changeSide len i j then i / 2 + j
  else if !flagMiddle i && !changeSide len i j then (i + 1) / 2 + j
  else if flagMiddle i && changeSide len i j then i / 2 - j + (peNum len i - 1) / 2
  else (i + 1) / 2 - j + (peNum len i - 1) / 2

section Diagonal

variable {len : Nat} {i j : Int}

/-- Both parities of a diagonal start from the row below its middle. -/
private theorem peRow_eq (len : Nat) (i j : Int) :
    peRow len i j =
      i / 2 + if changeSide len i j then j - (peNum len i - 1) / 2 else -j := by
  cases hside : changeSide len i j <;> by_cases hmid : i % 2 = 0 <;>
    simp [peRow, hside, flagMiddle, hmid] <;> omega

/-- The first half of a diagonal is visited from its middle upwards. -/
theorem peRow_of_lt (h : 2 * j < peNum len i) : peRow len i j = i / 2 - j := by
  have hside : changeSide len i j = false := by
    simp [changeSide, h]
  rw [peRow_eq, hside]
  rfl

/-- The second half is visited from the middle downwards. -/
theorem peRow_of_ge (h : peNum len i ≤ 2 * j) :
    peRow len i j = i / 2 + j - (peNum len i - 1) / 2 := by
  have hside : changeSide len i j = true := by
    simp [changeSide, h]
  rw [peRow_eq, hside, if_pos rfl, Int.add_sub_assoc]

/-- The coordinates of the cells on a diagonal add up to its number. -/
theorem peRow_add_peCol (len : Nat) (i j : Int) : peRow len i j + peCol len i j = i := by
  cases hside : changeSide len i j <;> by_cases hmid : i % 2 = 0 <;>
    simp [peRow, peCol, hside, flagMiddle, hmid] <;> omega

/-- The length of a diagonal inside the array. -/
theorem peNum_cases (len : Nat) (i : Int) :
    i < len ∧ peNum len i = i + 1 ∨ len ≤ i ∧ peNum len i = 2 * len - 1 - i := by
  unfold peNum
  split_ifs <;> omega

/-- Every visited cell lies inside the array. -/
theorem pe_bounds (hi : 0 ≤ i) (hlen : i < 2 * len - 1) (hj : 0 ≤ j)
    (hnum : j < peNum len i) :
    (0 ≤ peRow len i j ∧ peRow len i j < len) ∧ 0 ≤ peCol len i j ∧ peCol len i j < len := by
  have hsum := peRow_add_peCol len i j
  rcases peNum_cases len i with ⟨hside, hcount⟩ | ⟨hside, hcount⟩ <;>
    rcases lt_or_ge (2 * j) (peNum len i) with hhalf | hhalf
  · have hrow := peRow_of_lt hhalf
    omega
  · have hrow := peRow_of_ge hhalf
    omega
  · have hrow := peRow_of_lt hhalf
    omega
  · have hrow := peRow_of_ge hhalf
    omega

/-- No cell of a diagonal is visited twice. -/
theorem peRow_injective {k : Int} (hj : 0 ≤ j) (hk : 0 ≤ k)
    (h : peRow len i j = peRow len i k) : j = k := by
  rcases lt_or_ge (2 * j) (peNum len i) with hjhalf | hjhalf <;>
    rcases lt_or_ge (2 * k) (peNum len i) with hkhalf | hkhalf
  · rw [peRow_of_lt hjhalf, peRow_of_lt hkhalf] at h
    omega
  · rw [peRow_of_lt hjhalf, peRow_of_ge hkhalf] at h
    omega
  · rw [peRow_of_ge hjhalf, peRow_of_lt hkhalf] at h
    omega
  · rw [peRow_of_ge hjhalf, peRow_of_ge hkhalf] at h
    omega

/-- Every cell of a diagonal is visited. -/
theorem exists_peRow {r c : Int} (hr : 0 ≤ r) (hrlen : r < len) (hc : 0 ≤ c)
    (hclen : c < len) :
    ∃ j, 0 ≤ j ∧ j < peNum len (r + c) ∧ peRow len (r + c) j = r := by
  have hcount := peNum_cases len (r + c)
  rcases le_or_gt r ((r + c) / 2) with hhalf | hhalf
  · have hfirst : 2 * ((r + c) / 2 - r) < peNum len (r + c) := by omega
    refine ⟨(r + c) / 2 - r, by omega, by omega, ?_⟩
    rw [peRow_of_lt hfirst]
    omega
  · have hsecond :
        peNum len (r + c) ≤ 2 * (r - (r + c) / 2 + (peNum len (r + c) - 1) / 2) := by omega
    refine ⟨r - (r + c) / 2 + (peNum len (r + c) - 1) / 2, by omega, by omega, ?_⟩
    rw [peRow_of_ge hsecond]
    omega

/-- The indices {lit}`i` and {lit}`j` that the two loops of a pulse run through. -/
def LoopIndex (len : Nat) (i j : Int) : Prop :=
  (0 ≤ i ∧ i ≤ 2 * len - 2) ∧ 0 ≤ j ∧ j < peNum len i

/-- The addresses of {lit}`pe[LEN][LEN]`. -/
def InArray (len : Nat) (x : Int × Int) : Prop :=
  (0 ≤ x.1 ∧ x.1 < len) ∧ 0 ≤ x.2 ∧ x.2 < len

instance (len : Nat) (x : Int × Int) : Decidable (InArray len x) :=
  inferInstanceAs (Decidable (_ ∧ _))

/-- The loops stay in the array. -/
theorem inArray_of_loopIndex (h : LoopIndex len i j) :
    InArray len (peRow len i j, peCol len i j) := by
  rcases h with ⟨⟨hi, hlast⟩, hj, hnum⟩
  exact pe_bounds hi (by omega) hj hnum

/-- Every cell of the array belongs to exactly one pair of loop indices. -/
theorem existsUnique_loopIndex {x : Int × Int} (hx : InArray len x) :
    ∃! k : Int × Int, LoopIndex len k.1 k.2 ∧
      (peRow len k.1 k.2, peCol len k.1 k.2) = x := by
  rcases hx with ⟨⟨hr, hrlen⟩, hc, hclen⟩
  rcases exists_peRow hr hrlen hc hclen with ⟨j, hj, hnum, hrow⟩
  refine ⟨(x.1 + x.2, j), ⟨⟨⟨by omega, by omega⟩, hj, hnum⟩, ?_⟩, ?_⟩
  · have hsum := peRow_add_peCol len (x.1 + x.2) j
    exact Prod.ext hrow (by simp only; omega)
  · -- The diagonal is the sum of the coordinates, the place on it the row.
    rintro ⟨i, k⟩ ⟨⟨_, hk, _⟩, rfl⟩
    have hdiag := peRow_add_peCol len i k
    rw [hdiag] at hrow ⊢
    rw [peRow_injective hj hk hrow]

end Diagonal

/-- The cells of one pulse in the order of the two loops: {lit}`i` from
{lit}`2*LEN-2` down to zero, {lit}`j` upwards. -/
def peOrder (len : Nat) : List (Int × Int) :=
  (List.range (2 * len - 1)).reverse.flatMap fun (i : Nat) =>
    (List.range (peNum len i).toNat).map fun (j : Nat) => (peRow len i j, peCol len i j)

/-- The diagonals that the outer loop visits. -/
theorem mem_range_reverse {len i : Nat} (h : i ∈ (List.range (2 * len - 1)).reverse) :
    (i : Int) < 2 * len - 1 := by
  rw [List.mem_reverse, List.mem_range] at h
  omega

/-- A pulse visits exactly the cells of the array. -/
theorem mem_peOrder (len : Nat) (x : Int × Int) :
    x ∈ peOrder len ↔ (0 ≤ x.1 ∧ x.1 < len) ∧ 0 ≤ x.2 ∧ x.2 < len := by
  simp only [peOrder, List.mem_flatMap, List.mem_map]
  constructor
  · rintro ⟨i, hi, j, hj, rfl⟩
    have hlen := mem_range_reverse hi
    rw [List.mem_range] at hj
    exact pe_bounds (by omega) hlen (by omega) (by omega)
  · rintro ⟨⟨hr, hrlen⟩, hc, hclen⟩
    rcases exists_peRow hr hrlen hc hclen with ⟨j, hj, hnum, hrow⟩
    have hdiag : ((x.1 + x.2).toNat : Int) = x.1 + x.2 := Int.toNat_of_nonneg (by omega)
    have hidx : (j.toNat : Int) = j := Int.toNat_of_nonneg hj
    refine ⟨(x.1 + x.2).toNat, ?_, j.toNat, ?_, ?_⟩
    · rw [List.mem_reverse, List.mem_range]
      omega
    · rw [List.mem_range, hdiag]
      omega
    · have hsum := peRow_add_peCol len (x.1 + x.2) j
      rw [hdiag, hidx]
      exact Prod.ext hrow (by simp only; omega)

/-- A pulse visits no cell twice. -/
theorem nodup_peOrder (len : Nat) : (peOrder len).Nodup := by
  rw [peOrder, List.nodup_flatMap]
  constructor
  · intro i _
    rw [List.nodup_map_iff_inj_on List.nodup_range]
    intro j _ k _ heq
    have hrow : peRow len i j = peRow len i k := congrArg Prod.fst heq
    have hjk := peRow_injective (Int.natCast_nonneg j) (Int.natCast_nonneg k) hrow
    exact_mod_cast hjk
  · rw [List.pairwise_reverse]
    refine List.nodup_range.imp ?_
    intro i k hne
    rw [Function.onFun, List.disjoint_left]
    intro x hx hy
    rcases List.mem_map.mp hx with ⟨j, _, rfl⟩
    rcases List.mem_map.mp hy with ⟨l, _, heq⟩
    have hrow : peRow len i l = peRow len k j := congrArg Prod.fst heq
    have hcol : peCol len i l = peCol len k j := congrArg Prod.snd heq
    have hi := peRow_add_peCol len i l
    have hk := peRow_add_peCol len k j
    rw [hrow, hcol, hk] at hi
    exact hne (by exact_mod_cast hi.symm)

/-- Diagonals are visited in descending order. -/
theorem descending_peOrder (len : Nat) :
    (peOrder len).Pairwise fun x y => y.1 + y.2 ≤ x.1 + x.2 := by
  rw [peOrder, List.pairwise_flatMap]
  constructor
  · intro i _
    rw [List.pairwise_map]
    refine List.pairwise_of_forall ?_
    intro j k
    rw [peRow_add_peCol, peRow_add_peCol]
  · rw [List.pairwise_reverse]
    refine List.pairwise_lt_range.imp ?_
    intro i k hlt x hx y hy
    rcases List.mem_map.mp hx with ⟨j, _, rfl⟩
    rcases List.mem_map.mp hy with ⟨l, _, rfl⟩
    rw [peRow_add_peCol, peRow_add_peCol]
    omega

namespace SystolicArray

/-! ## Reset -/

/-- The two loops of {lit}`reset()`. -/
def reset [Zero T] (len : Nat) (pe : SystolicArray T) : SystolicArray T :=
  (List.range len).foldl
    (fun pe (r : Nat) =>
      (List.range len).foldl
        (fun pe (c : Nat) => Function.update pe ((r : Int), (c : Int)) ProcessElement.reset)
        pe) pe

/-- After {lit}`reset()` every cell of the array is zero, whatever it held. -/
theorem reset_get [Zero T] {len : Nat} (pe : SystolicArray T) (r c : Fin len) :
    reset len pe (r.val, c.val) = ProcessElement.reset := by
  have hsweep : reset len pe =
      Sweep.sweep (fun _ _ => ProcessElement.reset)
        ((List.range len).flatMap fun (r : Nat) =>
          (List.range len).map fun (c : Nat) => ((r : Int), (c : Int))) pe := by
    simp only [reset, Sweep.sweep, List.foldl_flatMap, List.foldl_map]
  have hreads : Sweep.ReadsOnly (fun (_ : SystolicArray T) _ => ProcessElement.reset)
      fun _ _ => False := by
    intro _ _ _ _
    rfl
  rw [hsweep]
  refine Sweep.sweep_get hreads (List.pairwise_of_forall fun _ _ h => h) ?_ pe
  rw [List.mem_flatMap]
  refine ⟨r.val, List.mem_range.mpr r.isLt, ?_⟩
  rw [List.mem_map]
  exact ⟨c.val, List.mem_range.mpr c.isLt, rfl⟩

/-- The cells of the array, row first. -/
def toGrid (len : Nat) (pe : SystolicArray T) : Systolic.Grid len T T T :=
  fun r c =>
    { right := (pe (r.val, c.val)).a
      down := (pe (r.val, c.val)).b
      val := (pe (r.val, c.val)).val }

/-- The entries of an input vector. -/
def lanes (len : Nat) (vec : Int → T) (k : Fin len) : T :=
  vec k.val

/-- After {lit}`reset` the grid is zero. -/
theorem toGrid_reset [Zero T] (len : Nat) (pe : SystolicArray T) :
    toGrid len (reset len pe) = Systolic.zeroGrid len T T T := by
  funext r c
  simp [toGrid, Systolic.zeroGrid, reset_get, ProcessElement.reset]

/-! ## Pulses -/

variable [Add T] [Mul T]

/-- Operand from the left: the input vector in column zero, otherwise the left
neighbour. -/
def aIn (aVec : Int → T) (pe : SystolicArray T) (x : Int × Int) : T :=
  if x.2 = 0 then aVec x.1 else (pe (x.1, x.2 - 1)).a

/-- Operand from above: the input vector in row zero, otherwise the upper
neighbour. -/
def bIn (bVec : Int → T) (pe : SystolicArray T) (x : Int × Int) : T :=
  if x.1 = 0 then bVec x.2 else (pe (x.1 - 1, x.2)).b

/-- The cell after its update, from the array as it stands. -/
def processed (aVec bVec : Int → T) (pe : SystolicArray T) (x : Int × Int) :
    ProcessElement T :=
  (pe x).process (aIn aVec pe x) (bIn bVec pe x)

/-- The two loops of {lit}`pulse`. -/
def pulse (len : Nat) (aVec bVec : Int → T) (pe : SystolicArray T) : SystolicArray T :=
  (List.range (2 * len - 1)).reverse.foldl
    (fun pe (i : Nat) =>
      (List.range (peNum len i).toNat).foldl
        (fun pe (j : Nat) =>
          Function.update pe (peRow len i j, peCol len i j)
            (processed aVec bVec pe (peRow len i j, peCol len i j))) pe) pe

/-- A pulse visits the elements in the order of the loops. -/
theorem pulse_eq_sweep (len : Nat) (aVec bVec : Int → T) (pe : SystolicArray T) :
    pulse len aVec bVec pe = Sweep.sweep (processed aVec bVec) (peOrder len) pe := by
  simp only [pulse, Sweep.sweep, peOrder, List.foldl_flatMap, List.foldl_map]

/-- A cell reads its own registers and those of its left and upper neighbours. -/
def Reads (y x : Int × Int) : Prop :=
  x = y ∨ x = (y.1, y.2 - 1) ∨ x = (y.1 - 1, y.2)

/-- An element reads its neighbours only. -/
theorem processed_readsOnly (aVec bVec : Int → T) :
    Sweep.ReadsOnly (processed aVec bVec) Reads := by
  intro y pe pe' h
  simp only [processed, aIn, bIn]
  rw [h y (Or.inl rfl), h _ (Or.inr (Or.inl rfl)), h _ (Or.inr (Or.inr rfl))]

/-- A pulse computes every cell of the array from the old registers. -/
theorem pulse_get (len : Nat) (aVec bVec : Int → T) (pe : SystolicArray T) {x : Int × Int}
    (hx : (0 ≤ x.1 ∧ x.1 < len) ∧ 0 ≤ x.2 ∧ x.2 < len) :
    pulse len aVec bVec pe x = processed aVec bVec pe x := by
  rw [pulse_eq_sweep]
  refine Sweep.sweep_get_of_rank (fun x => x.1 + x.2) (processed_readsOnly aVec bVec) ?_
    (nodup_peOrder len) (descending_peOrder len) ((mem_peOrder len x).mpr hx) pe
  rintro y x (rfl | rfl | rfl)
  · exact Or.inl rfl
  · right
    simp only
    omega
  · right
    simp only
    omega

/-- A pulse leaves everything outside the array alone. -/
theorem pulse_get_of_outside (len : Nat) (aVec bVec : Int → T) (pe : SystolicArray T)
    {x : Int × Int} (hx : ¬ InArray len x) : pulse len aVec bVec pe x = pe x := by
  rw [pulse_eq_sweep]
  apply Sweep.sweep_get_of_notMem
  intro hmem
  exact hx ((mem_peOrder len x).mp hmem)

/-- All cells of the array updated from the old registers at once. -/
def movedAtOnce (len : Nat) (aVec bVec : Int → T) (pe : SystolicArray T) : SystolicArray T :=
  fun x =>
    if InArray len x then
      { a := if x.2 = 0 then aVec x.1 else (pe (x.1, x.2 - 1)).a
        b := if x.1 = 0 then bVec x.2 else (pe (x.1 - 1, x.2)).b
        val := (pe x).val +
          (if x.2 = 0 then aVec x.1 else (pe (x.1, x.2 - 1)).a) *
            (if x.1 = 0 then bVec x.2 else (pe (x.1 - 1, x.2)).b) }
    else pe x

/-- The loops of {lit}`pulse` stay inside the array, visit every cell exactly once and
leave the array as one synchronous step does. -/
theorem pulse_synchronous (len : Nat) (aVec bVec : Int → T) (pe : SystolicArray T) :
    (∀ i j, LoopIndex len i j → InArray len (peRow len i j, peCol len i j)) ∧
      (∀ x, InArray len x → ∃! k : Int × Int, LoopIndex len k.1 k.2 ∧
        (peRow len k.1 k.2, peCol len k.1 k.2) = x) ∧
      pulse len aVec bVec pe = movedAtOnce len aVec bVec pe := by
  refine ⟨fun i j h => inArray_of_loopIndex h, fun x hx => existsUnique_loopIndex hx, ?_⟩
  funext x
  by_cases hx : InArray len x
  · rw [pulse_get len aVec bVec pe hx, movedAtOnce, if_pos hx]
    rfl
  · rw [pulse_get_of_outside len aVec bVec pe hx, movedAtOnce, if_neg hx]

/-- The in-place loops move all cells at once. -/
theorem toGrid_pulse (len : Nat) (aVec bVec : Int → T) (pe : SystolicArray T) :
    toGrid len (pulse len aVec bVec pe) =
      Systolic.pulse (· * ·) (toGrid len pe) (lanes len aVec, lanes len bVec) := by
  funext r c
  have hcell : pulse len aVec bVec pe (r.val, c.val) =
      processed aVec bVec pe (r.val, c.val) :=
    pulse_get len aVec bVec pe ⟨⟨by simp, by simp⟩, by simp, by simp⟩
  have hleft : aIn aVec pe (r.val, c.val) =
      Systolic.fromLeft (lanes len aVec) (toGrid len pe) r c := by
    by_cases hc : c.val = 0
    · simp [aIn, Systolic.fromLeft, lanes, hc]
    · have hcast : ((c.val - 1 : Nat) : Int) = (c.val : Int) - 1 := by omega
      simp [aIn, Systolic.fromLeft, toGrid, hc, hcast]
  have habove : bIn bVec pe (r.val, c.val) =
      Systolic.fromAbove (lanes len bVec) (toGrid len pe) r c := by
    by_cases hr : r.val = 0
    · simp [bIn, Systolic.fromAbove, lanes, hr]
    · have hcast : ((r.val - 1 : Nat) : Int) = (r.val : Int) - 1 := by omega
      simp [bIn, Systolic.fromAbove, toGrid, hr, hcast]
  simp only [toGrid, Systolic.pulse, hcell, processed, ProcessElement.process, hleft, habove]

end SystolicArray

/-! ## Stream law -/

section StreamLaw

variable [CommRing T]

/-- The array after {lit}`t` pulses from {lit}`reset()`. -/
def pulses (len : Nat) (aVec bVec : Nat → Int → T) (prior : SystolicArray T) (t : Nat) :
    SystolicArray T :=
  run (fun pe (v : (Int → T) × (Int → T)) => SystolicArray.pulse len v.1 v.2 pe)
    (SystolicArray.reset len prior) (fun s => (aVec s, bVec s)) t

/-- The array runs as an output-stationary systolic array does. -/
theorem toGrid_pulses (len : Nat) (aVec bVec : Nat → Int → T) (prior : SystolicArray T)
    (t : Nat) :
    SystolicArray.toGrid len (pulses len aVec bVec prior t) =
      Systolic.after (· * ·)
        (fun s => (SystolicArray.lanes len (aVec s), SystolicArray.lanes len (bVec s))) t := by
  rw [pulses, run_simulation (f := SystolicArray.toGrid len)
    (g := fun _ v => (SystolicArray.lanes len v.1, SystolicArray.lanes len v.2))
    (fun pe v => SystolicArray.toGrid_pulse len v.1 v.2 pe), SystolicArray.toGrid_reset]
  rfl

/-- The accumulators hold the inner products of the delayed streams. -/
theorem pulses_val (len : Nat) (aVec bVec : Nat → Int → T) (prior : SystolicArray T)
    (t : Nat) (r c : Fin len) :
    (pulses len aVec bVec prior t (r.val, c.val)).val =
      ∑ s ∈ Finset.range t, Systolic.delayed (fun s => aVec s r.val) c.val s *
        Systolic.delayed (fun s => bVec s c.val) r.val s := by
  have hgrid := congrFun (congrFun (toGrid_pulses len aVec bVec prior t) r) c
  calc
    (pulses len aVec bVec prior t (r.val, c.val)).val =
        (SystolicArray.toGrid len (pulses len aVec bVec prior t) r c).val := rfl
    _ = _ := by
      rw [hgrid]
      exact Systolic.cell_val (· * ·) _ t r c

/-- Entry {lit}`k` of the input vector with a possibly negative index; vectors before
the first one are zero. -/
def vecAt (vec : Nat → Int → T) (s k : Int) : T :=
  if 0 ≤ s then vec s.toNat k else 0

/-- A delayed stream is the stream some pulses before. -/
theorem delayed_eq_vecAt (vec : Nat → Int → T) (k : Int) (d s : Nat) :
    Systolic.delayed (fun s => vec s k) d s = vecAt vec (s - d) k := by
  by_cases hd : d ≤ s
  · have hidx : ((s : Int) - d).toNat = s - d := by omega
    rw [Systolic.delayed, if_pos hd, vecAt, if_pos (by omega), hidx]
  · rw [Systolic.delayed, if_neg hd, vecAt, if_neg (by omega)]

/-- What a forwarding register holds entered the array one pulse and the distance to
the border ago. -/
private theorem forward_after {x : Nat → T} {vec : Nat → Int → T} {k : Int} {d : Nat}
    (hzero : x 0 = 0) (hsucc : ∀ t, x (t + 1) = vecAt vec (t - d) k) (t : Nat) :
    x t = vecAt vec (t - 1 - d) k := by
  cases t with
  | zero => rw [hzero, vecAt, if_neg (by omega)]
  | succ t =>
      have hidx : ((t + 1 : Nat) : Int) - 1 - d = t - d := by omega
      rw [hsucc, hidx]

/-- The registers of a cell after {lit}`t` pulses from {lit}`reset()`: its
accumulator holds the inner product of the two delayed streams, and the forwarding
registers the vectors of one pulse earlier. -/
theorem stream_law (len : Nat) (aVec bVec : Nat → Int → T) (prior : SystolicArray T)
    (t : Nat) (r c : Fin len) :
    pulses len aVec bVec prior t (r.val, c.val) =
      { a := vecAt aVec (t - 1 - c.val) r.val
        b := vecAt bVec (t - 1 - r.val) c.val
        val := ∑ s ∈ Finset.range t,
          vecAt aVec (s - c.val) r.val * vecAt bVec (s - r.val) c.val } := by
  let inp : Nat → (Fin len → T) × (Fin len → T) :=
    fun s => (SystolicArray.lanes len (aVec s), SystolicArray.lanes len (bVec s))
  have hcell : ∀ t, Systolic.after (· * ·) inp t r c =
      { right := (pulses len aVec bVec prior t (r.val, c.val)).a
        down := (pulses len aVec bVec prior t (r.val, c.val)).b
        val := (pulses len aVec bVec prior t (r.val, c.val)).val } := by
    intro t
    rw [← toGrid_pulses len aVec bVec prior t]
    rfl
  have hleft : ∀ s, Systolic.delayed (fun k => (inp k).1 r) c.val s =
      vecAt aVec (s - c.val) r.val :=
    delayed_eq_vecAt aVec r.val c.val
  have habove : ∀ s, Systolic.delayed (fun k => (inp k).2 c) r.val s =
      vecAt bVec (s - r.val) c.val :=
    delayed_eq_vecAt bVec c.val r.val
  refine ProcessElement.ext ?_ ?_ ?_
  · refine forward_after (x := fun t => (pulses len aVec bVec prior t (r.val, c.val)).a) ?_ ?_ t
    · simp [pulses, SystolicArray.reset_get, ProcessElement.reset]
    · intro t
      rw [← hleft t, ← Systolic.fromLeft_after (· * ·) inp t r c]
      exact (congrArg Systolic.Cell.right (hcell (t + 1))).symm
  · refine forward_after (x := fun t => (pulses len aVec bVec prior t (r.val, c.val)).b) ?_ ?_ t
    · simp [pulses, SystolicArray.reset_get, ProcessElement.reset]
    · intro t
      rw [← habove t, ← Systolic.fromAbove_after (· * ·) inp t r c]
      exact (congrArg Systolic.Cell.down (hcell (t + 1))).symm
  · rw [pulses_val]
    simp only [delayed_eq_vecAt]

end StreamLaw

end Hls
end AcceleratorSoc
