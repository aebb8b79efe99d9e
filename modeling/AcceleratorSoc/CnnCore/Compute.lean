import Mathlib.Algebra.BigOperators.Fin
import Mathlib.Tactic.IntervalCases
import AcceleratorSoc.CnnCore.Invariants

/-!
# The matrix product computed by the array

From a clean start the compute counter sweeps from zero to ten while the
controller goes from {lit}`COMPUTE` to {lit}`STORE`.  The lane multiplexers feed
the buffers into the array with a skew of one cycle per lane, so the array
performs ten pulses of a skewed systolic product and then holds.

Main results:

- Theorem {lit}`sweep_run`: counter, mode, controller state and buffers during the
  sweep.
- Theorem {lit}`grid_run`: the array during the sweep is a systolic grid on
  skewed inputs.
- Theorem {lit}`result_of_sweep`: accumulator {lit}`rc` is final from cycle
  {lit}`r + c + 5` on.
- Theorem {lit}`result_after_sweep`: all accumulators hold from cycle eleven on.
- Theorem {lit}`matrix_product`: after the sweep every accumulator holds its
  inner product until the clearing pulse.
-/

namespace AcceleratorSoc
namespace CnnCore

open Clocked

/-! ## The sweep -/

/-- The inner product that accumulator {lit}`rc` should hold: image row
{lit}`r` against weight row {lit}`c`, modulo 2^32. -/
def innerProduct (s : CoreState) (r c : Fin 4) : Word :=
  ∑ k : Fin 4, product (s.imageData r k) (s.curWeight c k)

/-- The controller {lit}`n` cycles after a clean start. -/
structure Sweep (s₀ : CoreState) (n : Nat) (s : CoreState) : Prop where
  computeCnt : s.computeCnt.toNat = n
  mode : s.mode = .single
  currentState : s.currentState = if n ≤ 4 then .compute else .store
  storeRspRcptCnt : s.storeRspRcptCnt.toNat ≤ n - 5
  curWeight : s.curWeight = s₀.curWeight
  imageData : s.imageData = s₀.imageData

/-- A clean start is the first cycle of the sweep. -/
theorem CleanStart.sweep {s : CoreState} (h : CleanStart s) : Sweep s 0 s where
  computeCnt := by simp [h.computeCnt]
  mode := h.mode
  currentState := h.currentState
  storeRspRcptCnt := by simp [h.storeRspRcptCnt]
  curWeight := rfl
  imageData := rfl

/-- The buffers are written in the load phases only. -/
theorem step_buffers {s : CoreState} (i : CoreInput)
    (hweight : s.currentState ≠ .loadWeight) (himage : s.currentState ≠ .loadImage) :
    (s.step i).curWeight = s.curWeight ∧ (s.step i).imageData = s.imageData := by
  constructor
  · apply Bank.ext_table
    intro r c
    simp [CoreState.step, CoreState.curWeightD, hweight]
  · apply Bank.ext_table
    intro r c
    simp [CoreState.step, CoreState.imageDataD, himage]

/-- One cycle of the sweep. -/
theorem Sweep.step {s₀ s : CoreState} {n : Nat} (h : Sweep s₀ n s) (hn : n < 10)
    (i : CoreInput) : Sweep s₀ (n + 1) (s.step i) := by
  have hstate : s.currentState = .compute ∧ n ≤ 4 ∨ s.currentState = .store ∧ 4 < n := by
    have := h.currentState
    split_ifs at this with hle
    · exact Or.inl ⟨this, hle⟩
    · exact Or.inr ⟨this, by omega⟩
  have hcnt : (s.step i).computeCnt.toNat = n + 1 := by
    rw [← h.computeCnt]
    apply computeCnt_step
    · rcases hstate with ⟨hs, _⟩ | ⟨hs, hlt⟩
      · exact Or.inl hs
      · exact Or.inr ⟨hs, by rw [h.computeCnt]; omega⟩
    · rw [h.computeCnt]
      exact hn
  have hnoLoad : s.currentState ≠ .loadWeight ∧ s.currentState ≠ .loadImage := by
    rcases hstate with ⟨hs, _⟩ | ⟨hs, _⟩ <;> simp [hs]
  have hbuffers := step_buffers (s := s) i hnoLoad.1 hnoLoad.2
  refine
    { computeCnt := hcnt
      mode := modeD_eq_single_iff.mpr ?_
      currentState := ?_
      storeRspRcptCnt := ?_
      curWeight := hbuffers.1.trans h.curWeight
      imageData := hbuffers.2.trans h.imageData }
  · rcases hstate with ⟨hs, _⟩ | ⟨hs, hlt⟩
    · exact Or.inr (Or.inl hs)
    · exact Or.inr (Or.inr ⟨hs, by rw [h.computeCnt]; omega, by rw [h.computeCnt]; omega⟩)
  · change s.nextState i = _
    rcases hstate with ⟨hs, hle⟩ | ⟨hs, hlt⟩
    · by_cases hlast : n = 4
      · have heq : s.computeCnt = 4 := BitVec.eq_of_toNat_eq (by rw [h.computeCnt, hlast]; rfl)
        rw [CoreState.nextState_eq_store.mpr (Or.inl ⟨hs, heq⟩), if_neg (by omega)]
      · have hne : s.computeCnt ≠ 4 := by
          intro heq
          apply hlast
          rw [← h.computeCnt, heq]
          rfl
        rw [CoreState.nextState_eq_compute.mpr (Or.inr ⟨hs, hne⟩), if_pos (by omega)]
    · have hdone := CoreState.storeDone_eq_false (h.storeRspRcptCnt.trans (by omega))
      rw [CoreState.nextState_eq_store.mpr (Or.inr ⟨hs, hdone⟩), if_neg (by omega)]
  · have hrsp := h.storeRspRcptCnt
    rcases hstate with ⟨hs, _⟩ | ⟨_, hlt⟩
    · simp [CoreState.step, CoreState.storeRspRcptCntD, hs]
    · have := storeRspRcptCnt_step_le s i
      omega

/-- The sweep runs its eleven counts, whatever the bus does. -/
theorem sweep_run {s : CoreState} (h : CleanStart s) (inp : Nat → CoreInput) {n : Nat}
    (hn : n ≤ 10) : Sweep s n (run CoreState.step s inp n) := by
  induction n with
  | zero => exact h.sweep
  | succ n ih => exact (ih (by omega)).step (by omega) (inp n)

/-! ## The array during the sweep -/

/-- The words of one lane, in feeding order. -/
def laneWords (words : Bank Word) (k : Nat) : Word :=
  words (Fin.ofNat 4 k)

/-- The lane multiplexers feed each lane with a skew of one cycle. -/
theorem laneMux_eq_skewed (cnt : BitVec 4) (lane : Fin 4) (words : Bank Word) :
    CoreState.laneMux .single cnt lane words =
      Systolic.skewed 4 (laneWords words) lane.val cnt.toNat := by
  have hcnt : ∀ j ≤ 3, (cnt == BitVec.ofNat 4 (lane.val + j)) =
      decide (cnt.toNat = lane.val + j) := by
    intro j hj
    rw [Bool.eq_iff_iff, beq_iff_eq, decide_eq_true_iff, ← BitVec.toNat_inj,
      BitVec.toNat_ofNat, Nat.mod_eq_of_lt (by omega)]
  have h0 := hcnt 0 (by omega)
  have h1 := hcnt 1 (by omega)
  have h2 := hcnt 2 (by omega)
  have h3 := hcnt 3 (by omega)
  rw [Nat.add_zero] at h0
  simp only [CoreState.laneMux, h0, h1, h2, h3, Systolic.skewed, laneWords]
  by_cases hwindow : lane.val ≤ cnt.toNat ∧ cnt.toNat < lane.val + 4
  · obtain ⟨j, hj⟩ := Nat.exists_eq_add_of_le hwindow.1
    have hlt : j < 4 := by omega
    rw [if_pos hwindow, hj, Nat.add_sub_cancel_left]
    interval_cases j <;> simp
    rfl
  · rw [if_neg hwindow, if_neg (by simp; omega), if_neg (by simp; omega),
      if_neg (by simp; omega), if_neg (by simp; omega)]

/-- The ideal input sequence of the array: both operands skewed. -/
def skewedInput (s : CoreState) (t : Nat) : (Fin 4 → Word) × (Fin 4 → Word) :=
  (fun r => Systolic.skewed 4 (laneWords (s.imageData r)) r.val t,
    fun c => Systolic.skewed 4 (laneWords (s.curWeight c)) c.val t)

/-- One cycle of the sweep loads the next skewed inputs into the skew registers. -/
theorem Sweep.step_skew {s₀ s : CoreState} {n : Nat} (h : Sweep s₀ n s) (i : CoreInput) :
    ((s.step i).inData.get, (s.step i).inWeight.get) = skewedInput s₀ n := by
  have hdata : (s.step i).inData.get = (skewedInput s₀ n).1 := by
    funext r
    simp [CoreState.step, CoreState.inDataD, skewedInput, h.mode, laneMux_eq_skewed,
      h.computeCnt, h.imageData]
  have hweight : (s.step i).inWeight.get = (skewedInput s₀ n).2 := by
    funext c
    simp [CoreState.step, CoreState.inWeightD, skewedInput, h.mode, laneMux_eq_skewed,
      h.computeCnt, h.curWeight]
  rw [hdata, hweight]

/-- After {lit}`n + 1` cycles of the sweep the array has made {lit}`n` pulses on
the skewed inputs; the first cycle only fills the skew registers. -/
theorem grid_run {s : CoreState} (h : CleanStart s) (inp : Nat → CoreInput) {n : Nat}
    (hn : n ≤ 10) :
    PeArray.toGrid (run CoreState.step s inp (n + 1)).peArray =
      Systolic.after product (skewedInput s) n := by
  induction n with
  | zero =>
      have hstep : (run CoreState.step s inp 1).peArray =
          PeArray.step s.peArray .single s.inData s.inWeight := by
        rw [← h.mode]
        rfl
      rw [hstep, PeArray.toGrid_step_single, h.peArray, h.inData, h.inWeight,
        PeArray.toGrid_reset]
      have hzero : (Bank.ofFn fun _ => (0 : Word)).get = fun _ => 0 := by
        funext k
        simp
      rw [hzero]
      exact Systolic.pulse_zeroGrid (product_zero_left 0)
  | succ n ih =>
      have hsweep := sweep_run h inp (n := n + 1) (by omega)
      have hprev := sweep_run h inp (n := n) (by omega)
      have hstep : (run CoreState.step s inp (n + 1 + 1)).peArray =
          PeArray.step (run CoreState.step s inp (n + 1)).peArray .single
            (run CoreState.step s inp (n + 1)).inData
            (run CoreState.step s inp (n + 1)).inWeight := by
        rw [← hsweep.mode]
        rfl
      rw [hstep, PeArray.toGrid_step_single, ih (by omega), Systolic.after_succ,
        run_succ, hprev.step_skew]

/-- Accumulator {lit}`rc` is final from cycle {lit}`r + c + 5` of the sweep on:
its last pair of operands has reached it. -/
theorem result_of_sweep {s : CoreState} (h : CleanStart s) (inp : Nat → CoreInput)
    {n : Nat} {r c : Fin 4} (hlow : r.val + c.val + 5 ≤ n) (hn : n ≤ 11) :
    (run CoreState.step s inp n).result r c = innerProduct s r c := by
  obtain ⟨m, rfl⟩ : ∃ m, n = m + 1 := ⟨n - 1, by omega⟩
  have hgrid := congrFun (congrFun (grid_run h inp (n := m) (by omega)) r) c
  have hval : (run CoreState.step s inp (m + 1)).result r c =
      (Systolic.after product (skewedInput s) m r c).val := by
    rw [← hgrid]
    rfl
  rw [hval, Systolic.skewed_val product_zero_left (fun _ _ => rfl) (fun _ _ => rfl)
    (by omega), Finset.sum_range]
  apply Finset.sum_congr rfl
  intro k _
  simp [laneWords]

/-! ## Holding the results -/

/-- After the sweep, while the store phase drains: the accumulators hold the
inner products of the buffers of {lit}`s₀`. -/
structure Drained (s₀ s : CoreState) : Prop where
  currentState : s.currentState = .store
  computeCnt : s.computeCnt = 0
  mode : s.mode = .disable
  result : ∀ r c, s.result r c = innerProduct s₀ r c
  curWeight : s.curWeight = s₀.curWeight
  imageData : s.imageData = s₀.imageData

/-- The last edge of the sweep leaves a drained state behind, once the results
are in place. -/
theorem Sweep.finish {s₀ s : CoreState} (h : Sweep s₀ 10 s) (i : CoreInput)
    (hresult : ∀ r c, (s.step i).result r c = innerProduct s₀ r c) :
    Drained s₀ (s.step i) := by
  have hs : s.currentState = .store := by
    simpa using h.currentState
  have hcnt : s.computeCnt = 10 :=
    BitVec.eq_of_toNat_eq h.computeCnt
  have hdone := CoreState.storeDone_eq_false (h.storeRspRcptCnt.trans (by decide))
  have hbuffers := step_buffers (s := s) i (by simp [hs]) (by simp [hs])
  exact
    { currentState := CoreState.nextState_eq_store.mpr (Or.inr ⟨hs, hdone⟩)
      computeCnt := by simp [CoreState.step, CoreState.computeCntD, hcnt]
      mode := by simp [CoreState.step, CoreState.modeD, hs, hcnt]
      result := hresult
      curWeight := hbuffers.1.trans h.curWeight
      imageData := hbuffers.2.trans h.imageData }

/-- The sweep ends with all sixteen results in place. -/
theorem drained_of_sweep {s : CoreState} (h : CleanStart s) (inp : Nat → CoreInput) :
    Drained s (run CoreState.step s inp (10 + 1)) := by
  have hlast := sweep_run h inp (n := 10) (le_refl 10)
  have hfinal := fun r c => result_of_sweep h inp (n := 10 + 1) (r := r) (c := c) (by omega)
    (le_refl 11)
  rw [run_succ] at hfinal ⊢
  exact hlast.finish (inp 10) hfinal

/-- A drained state keeps its accumulators over the next edge, into the cycle of
the clearing pulse included. -/
theorem Drained.step_result {s₀ s : CoreState} (h : Drained s₀ s) (i : CoreInput)
    (r c : Fin 4) : (s.step i).result r c = innerProduct s₀ r c := by
  rw [← h.result]
  change (PeArray.step s.peArray s.mode s.inData s.inWeight r c).result = _
  rw [h.mode, PeArray.step_disable_result]
  rfl

/-- A drained state stays drained until the sixteenth response is counted; then
the controller moves on and clears the array. -/
theorem Drained.step {s₀ s : CoreState} (h : Drained s₀ s) (i : CoreInput) :
    s.storeDone = false ∧ Drained s₀ (s.step i) ∨
      s.storeDone = true ∧ (s.step i).mode = .clear := by
  cases hdone : s.storeDone
  · left
    have hbuffers := step_buffers (s := s) i (by simp [h.currentState])
      (by simp [h.currentState])
    refine ⟨rfl, ?_⟩
    exact
      { currentState := CoreState.nextState_eq_store.mpr (Or.inr ⟨h.currentState, hdone⟩)
        computeCnt := by
          simp [CoreState.step, CoreState.computeCntD, h.currentState, h.computeCnt]
        mode := by
          simp [CoreState.step, CoreState.modeD, h.currentState, h.computeCnt, hdone]
        result := h.step_result i
        curWeight := hbuffers.1.trans h.curWeight
        imageData := hbuffers.2.trans h.imageData }
  · right
    exact ⟨rfl, by simp [CoreState.step, CoreState.modeD, h.currentState, h.computeCnt, hdone]⟩

/-- The state stays drained as long as no clearing pulse is given. -/
theorem drained_run {s₀ s : CoreState} (h : Drained s₀ s) (inp : Nat → CoreInput) (k : Nat)
    (hclear : ∀ m ≤ k, (run CoreState.step s inp m).mode ≠ .clear) :
    Drained s₀ (run CoreState.step s inp k) := by
  induction k with
  | zero => exact h
  | succ k ih =>
      rw [run_succ]
      rcases (ih fun m hm => hclear m (by omega)).step (inp k) with ⟨_, hnext⟩ | ⟨_, hmode⟩
      · exact hnext
      · exact absurd hmode (hclear (k + 1) (le_refl _))

/-- From the end of the sweep the accumulators hold their inner products until
the clearing pulse has been given, the cycle of the pulse included. -/
theorem result_held {s₀ s : CoreState} (h : Drained s₀ s) (inp : Nat → CoreInput) (k : Nat)
    (hclear : ∀ m < k, (run CoreState.step s inp m).mode ≠ .clear) (r c : Fin 4) :
    (run CoreState.step s inp k).result r c = innerProduct s₀ r c := by
  cases k with
  | zero => exact h.result r c
  | succ k =>
      rw [run_succ]
      exact (drained_run h inp k fun m hm => hclear m (by omega)).step_result (inp k) r c

/-- From a clean start the accumulators hold their inner products from cycle
eleven on, until the clearing pulse. -/
theorem result_after_sweep {s : CoreState} (h : CleanStart s) (inp : Nat → CoreInput)
    {n : Nat} (hn : 11 ≤ n) (hclear : ∀ m < n, (run CoreState.step s inp m).mode ≠ .clear)
    (r c : Fin 4) : (run CoreState.step s inp n).result r c = innerProduct s r c := by
  obtain ⟨k, rfl⟩ := Nat.exists_eq_add_of_le hn
  have hsplit := run_add CoreState.step s inp (10 + 1) k
  rw [hsplit]
  apply result_held (drained_of_sweep h inp) (fun j => inp (10 + 1 + j)) k
  intro m hm
  rw [← run_add]
  exact hclear (11 + m) (by omega)

/-- The clearing pulse is given only after the sixteenth store response. -/
theorem storeDone_of_clear {s : CoreState} {i : CoreInput}
    (h : (s.step i).mode = .clear) : s.storeDone = true := by
  change s.modeD = .clear at h
  unfold CoreState.modeD at h
  split_ifs at h with _ _ hdone
  exact hdone

/-- The matrix product of the array.  Let the controller enter {lit}`COMPUTE`
with a zero pipeline.  Then, whatever enable and the bus do, the counter sweeps
from zero to ten through {lit}`COMPUTE` and {lit}`STORE`; afterwards every
accumulator holds its inner product modulo 2^32 until the clearing pulse, and
that pulse follows {lit}`store_done`. -/
theorem matrix_product {s₀ : CoreState} {i₀ : CoreInput}
    (hload : s₀.currentState = .loadImage) (hrcpt : s₀.imageDataRcptDone = true)
    (hzero : PipelineZero (s₀.step i₀)) (inp : Nat → CoreInput) :
    (∀ n ≤ 10, (run CoreState.step (s₀.step i₀) inp n).computeCnt.toNat = n ∧
      (run CoreState.step (s₀.step i₀) inp n).currentState =
        if n ≤ 4 then .compute else .store) ∧
    (∀ n ≥ 11,
      (∀ m < n, (run CoreState.step (s₀.step i₀) inp m).mode ≠ .clear) →
      ∀ r c, (run CoreState.step (s₀.step i₀) inp n).result r c =
        ∑ k : Fin 4,
          (lowHalf ((s₀.step i₀).curWeight c k) * lowHalf ((s₀.step i₀).imageData r k) +
            highHalf ((s₀.step i₀).curWeight c k) *
              highHalf ((s₀.step i₀).imageData r k))) ∧
    (∀ n, (run CoreState.step (s₀.step i₀) inp (n + 1)).mode = .clear →
      (run CoreState.step (s₀.step i₀) inp n).storeDone = true) := by
  have hclean := cleanStart_of_zero hload hrcpt hzero
  refine ⟨fun n hn => ?_, fun n hn hclear r c => ?_, fun n hmode => storeDone_of_clear hmode⟩
  · have hsweep := sweep_run hclean inp hn
    exact ⟨hsweep.computeCnt, hsweep.currentState⟩
  · exact result_after_sweep hclean inp hn hclear r c

/-- A core that has received all its operands: weight word {lit}`ck` packs
{lit}`c + 1` and {lit}`k`, image word {lit}`rk` packs {lit}`r` and {lit}`2`. -/
def loadedCore : CoreState :=
  { CoreState.reset with
    currentState := .loadImage
    imageDataRcptCnt := 16
    curWeight := Bank.table fun c k => BitVec.ofNat 32 (65536 * k.val + c.val + 1)
    imageData := Bank.table fun r _ => BitVec.ofNat 32 (65536 * 2 + r.val) }

/-- An input cycle in which nothing happens. -/
def quietInput : CoreInput where
  enable := false
  cnnIcbCmdReady := false
  cnnIcbRspValid := false
  cnnIcbRspRdata := 0

/-- On these operands accumulator {lit}`12` ends with 24. -/
theorem matrix_product_loadedCore :
    (run CoreState.step (loadedCore.step quietInput) (fun _ => quietInput) 11).result 1 2 =
      24 :=
  ((@matrix_product loadedCore quietInput rfl rfl ⟨rfl, rfl, rfl, rfl⟩
    (fun _ => quietInput)).2.1 11 (le_refl 11) (by decide +kernel) 1 2).trans
      (by decide +kernel)

end CnnCore
end AcceleratorSoc
