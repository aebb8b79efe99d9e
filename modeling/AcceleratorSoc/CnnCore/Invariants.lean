import AcceleratorSoc.CnnCore.Step

/-!
# Invariants of the core under arbitrary inputs

Two families of facts that hold in every cycle after reset, whatever the enable
bit, the ready pattern and the responses are.

Main results:

- Theorem {lit}`channelInv_run`: which command the channel registers can hold in
  each controller state.
- Theorem {lit}`pipelineInv_run`: where the compute counter and the array mode
  stand in each controller state.
- Theorem {lit}`cleanStart_of_enters`: whenever the controller enters
  {lit}`COMPUTE`, the counter, the accumulators, the skew registers and the
  forwarding registers are zero.
- Theorem {lit}`compute_starts_clean`: the same along every run from reset.
-/

namespace AcceleratorSoc
namespace CnnCore

open Clocked

/-! ## Command channel -/

/-- What the command registers can hold, by controller state. -/
structure ChannelInv (s : CoreState) : Prop where
  idle_valid : s.currentState = .idle → s.cnnIcbCmdValid = false
  load_read : s.currentState = .loadWeight ∨ s.currentState = .loadImage →
    s.cnnIcbCmdValid = true → s.cnnIcbCmdRead = true
  store_read : s.currentState = .store → s.cnnIcbCmdRead = false
  wdata_zero : s.currentState ≠ .store → s.currentState ≠ .done → s.cnnIcbCmdWdata = 0
  store_cnt : s.currentState = .store → s.storeDataSendCnt.toNat ≤ 16
  store_valid : s.currentState = .store → s.cnnIcbCmdValid = true →
    s.storeDataSendCnt.toNat ≤ 15

/-- The invariant of the command channel holds out of reset. -/
theorem channelInv_reset : ChannelInv CoreState.reset := by
  constructor <;> simp [CoreState.reset]

/-- One more write is counted only while fewer than sixteen have been accepted
and one is presented. -/
private theorem store_cnt_step {s : CoreState} (h : ChannelInv s) (i : CoreInput)
    (hs : s.currentState = .store) :
    (s.step i).storeDataSendCnt.toNat ≤ 16 ∧
      (s.storeDataSendStart i = true → (s.step i).storeDataSendCnt.toNat ≤ 15) := by
  have hcnt := h.store_cnt hs
  have hvalid := h.store_valid hs
  have hread := h.store_read hs
  have hnext : (s.step i).storeDataSendCnt =
      if s.cnnIcbCmdValid && i.cnnIcbCmdReady then s.storeDataSendCnt + 1
      else s.storeDataSendCnt := by
    simp [CoreState.step, CoreState.storeDataSendCntD, CoreState.cnnIcbCmdWrHsk,
      CoreState.cnnIcbCmdHsk, hs, hread]
    grind
  rw [hnext]
  by_cases hhsk : s.cnnIcbCmdValid = true ∧ i.cnnIcbCmdReady = true
  · have h15 := hvalid hhsk.1
    have hadd : (s.storeDataSendCnt + 1).toNat = s.storeDataSendCnt.toNat + 1 := by
      rw [BitVec.toNat_add]
      exact Nat.mod_eq_of_lt (by simp; omega)
    rw [if_pos (by simp [hhsk.1, hhsk.2]), hadd]
    refine ⟨by omega, ?_⟩
    intro hstart
    have hne : s.storeDataSendCnt ≠ 15 := by
      intro heq
      simp [CoreState.storeDataSendStart, CoreState.storeDataSendDone, hs, heq, hhsk.2]
        at hstart
    have : s.storeDataSendCnt.toNat ≠ 15 := by
      intro heq
      exact hne (BitVec.eq_of_toNat_eq heq)
    omega
  · rw [if_neg (by simpa using hhsk)]
    refine ⟨hcnt, ?_⟩
    intro hstart
    have hne : s.storeDataSendCnt ≠ 16 := by
      intro heq
      simp [CoreState.storeDataSendStart, CoreState.storeDataSendDone, hs, heq] at hstart
    have : s.storeDataSendCnt.toNat ≠ 16 := by
      intro heq
      exact hne (BitVec.eq_of_toNat_eq heq)
    omega

/-- Every clock edge keeps it. -/
theorem channelInv_step {s : CoreState} (h : ChannelInv s) (i : CoreInput) :
    ChannelInv (s.step i) where
  idle_valid := by
    intro hnext
    rcases (CoreState.nextState_eq_idle.mp hnext).1 with hs | hs
    · exact CoreState.step_valid_of_quiet (Or.inl hs)
    · exact CoreState.step_valid_of_quiet (Or.inr (Or.inr hs))
  load_read := by
    intro hnext hvalid
    have hstore : s.currentState ≠ .store := by
      intro hs
      rcases hnext with hnext | hnext
      · have hprev := CoreState.nextState_eq_loadWeight.mp hnext
        simp [hs] at hprev
      · have hprev := CoreState.nextState_eq_loadImage.mp hnext
        simp [hs] at hprev
    rcases CoreState.step_valid_iff.mp hvalid with hstart | hstart | hstart
    · simp [CoreState.step, CoreState.cnnIcbCmdReadD, hstart]
    · simp [CoreState.step, CoreState.cnnIcbCmdReadD, hstart]
    · exact absurd (CoreState.storeDataSendStart_iff.mp hstart).1 hstore
  store_read := by
    intro hnext
    rcases CoreState.nextState_eq_store.mp hnext with ⟨hs, _⟩ | ⟨hs, _⟩ <;>
      simp [CoreState.step, CoreState.cnnIcbCmdReadD, CoreState.weightAddrSendStart,
        CoreState.imageAddrSendStart, hs]
  wdata_zero := by
    intro hstore hdone
    have hs : s.currentState ≠ .store := by
      intro hs
      rcases CoreState.nextState_of_store (i := i) hs with hnext | hnext
      · exact hstore hnext
      · exact hdone hnext
    simp [CoreState.step, CoreState.cnnIcbCmdWdataD, CoreState.storeDataSendStart, hs]
  store_cnt := by
    intro _
    by_cases hs : s.currentState = .store
    · exact (store_cnt_step h i hs).1
    · simp [CoreState.step, CoreState.storeDataSendCntD, hs]
  store_valid := by
    intro _ hvalid
    by_cases hs : s.currentState = .store
    · rw [CoreState.step_valid_of_store hs] at hvalid
      exact (store_cnt_step h i hs).2 hvalid
    · simp [CoreState.step, CoreState.storeDataSendCntD, hs]

/-- It holds along every run. -/
theorem channelInv_run (inp : Nat → CoreInput) (n : Nat) : ChannelInv (coreRun inp n) :=
  run_invariant_all channelInv_reset (fun _ i h => channelInv_step h i) inp n

/-! ## Compute pipeline -/

/-- Everything the compute pipeline starts from is zero: the counter, the skew
registers, the accumulators and the forwarding registers. -/
structure PipelineZero (s : CoreState) : Prop where
  computeCnt : s.computeCnt = 0
  inWeight : s.inWeight = Bank.ofFn fun _ => 0
  inData : s.inData = Bank.ofFn fun _ => 0
  peArray : s.peArray = PeArray.reset

/-- Where the compute counter and the array mode stand, by controller state.
Between jobs the pipeline is zero; in {lit}`STORE` the counter finishes its
sweep before sixteen responses can have been counted; the clearing pulse falls
into the first cycle of {lit}`DONE`. -/
structure PipelineInv (s : CoreState) : Prop where
  zero : s.currentState = .idle ∨ s.currentState = .loadWeight ∨
    s.currentState = .loadImage → PipelineZero s ∧ s.mode ≠ .single
  compute : s.currentState = .compute →
    s.mode = .single ∧ s.computeCnt.toNat ≤ 4 ∧ s.storeRspRcptCnt = 0
  store : s.currentState = .store →
    s.mode = .disable ∧ s.computeCnt = 0 ∨
      s.mode = .single ∧ s.storeRspRcptCnt.toNat + 5 ≤ s.computeCnt.toNat ∧
        s.computeCnt.toNat ≤ 10
  done : s.currentState = .done →
    s.mode = .clear ∧ s.computeCnt = 0 ∧ s.inWeight = (Bank.ofFn fun _ => 0) ∧
      s.inData = (Bank.ofFn fun _ => 0) ∨
      s.mode = .disable ∧ PipelineZero s

/-- The lane multiplexers pass nothing unless the array is active. -/
theorem laneMux_of_ne_single {mode : Mode} (h : mode ≠ .single) (cnt : BitVec 4)
    (lane : Fin 4) (words : Bank Word) : CoreState.laneMux mode cnt lane words = 0 := by
  simp [CoreState.laneMux, h]

/-- Outside mode {lit}`SINGLE` the skew registers are cleared. -/
theorem step_skew_of_ne_single {s : CoreState} (h : s.mode ≠ .single) (i : CoreInput) :
    (s.step i).inWeight = (Bank.ofFn fun _ => 0) ∧
      (s.step i).inData = (Bank.ofFn fun _ => 0) :=
  ⟨congrArg Bank.ofFn (funext fun _ => laneMux_of_ne_single h _ _ _),
    congrArg Bank.ofFn (funext fun _ => laneMux_of_ne_single h _ _ _)⟩

/-- An inactive array whose accumulators are zero is reset by the next edge. -/
theorem step_peArray_of_ne_single {s : CoreState} (h : s.mode ≠ .single)
    (hzero : s.mode = .clear ∨ s.peArray = PeArray.reset) (i : CoreInput) :
    (s.step i).peArray = PeArray.reset := by
  change PeArray.step s.peArray s.mode s.inData s.inWeight = PeArray.reset
  cases hmode : s.mode with
  | clear => rfl
  | single => exact absurd hmode h
  | disable =>
      apply PeArray.step_disable_eq_reset
      rcases hzero with hclear | hreset
      · exact absurd hmode (by rw [hclear]; simp)
      · intro r c
        simp [hreset, PeArray.reset, Pe.reset]

/-- The invariant of the pipeline holds out of reset. -/
theorem pipelineInv_reset : PipelineInv CoreState.reset where
  zero _ := ⟨⟨rfl, rfl, rfl, rfl⟩, by simp [CoreState.reset]⟩
  compute h := by simp [CoreState.reset] at h
  store h := by simp [CoreState.reset] at h
  done h := by simp [CoreState.reset] at h

/-- The pipeline stays zero over an inactive cycle. -/
theorem pipelineZero_step {s : CoreState} (h : PipelineZero s)
    (hmode : s.mode ≠ .single) (hcompute : s.currentState ≠ .compute) (i : CoreInput) :
    PipelineZero (s.step i) where
  computeCnt := by
    simp [CoreState.step, CoreState.computeCntD, h.computeCnt, hcompute]
  inWeight := (step_skew_of_ne_single hmode i).1
  inData := (step_skew_of_ne_single hmode i).2
  peArray := step_peArray_of_ne_single hmode (Or.inr h.peArray) i

/-- The window in which the array is switched on. -/
theorem modeD_eq_single_iff {s : CoreState} :
    s.modeD = .single ↔
      s.currentState = .loadImage ∧ s.imageDataRcptDone = true ∨
        s.currentState = .compute ∨
        s.currentState = .store ∧ s.computeCnt.toNat < 10 ∧ 4 < s.computeCnt.toNat := by
  simp only [CoreState.modeD, BitVec.lt_def, GT.gt]
  grind

/-- The controller waits in {lit}`DONE` for the pipeline to be cleared. -/
private theorem pipelineZero_of_done {s : CoreState} (h : PipelineInv s)
    (hs : s.currentState = .done) (i : CoreInput) : PipelineZero (s.step i) := by
  rcases h.done hs with ⟨hclear, hcnt, _, _⟩ | ⟨hdisable, hzero⟩
  · have hmode : s.mode ≠ .single := by simp [hclear]
    exact ⟨by simp [CoreState.step, CoreState.computeCntD, hcnt, hs],
      (step_skew_of_ne_single hmode i).1, (step_skew_of_ne_single hmode i).2,
      step_peArray_of_ne_single hmode (Or.inl hclear) i⟩
  · exact pipelineZero_step hzero (by simp [hdisable]) (by simp [hs]) i

/-- The counter moves by one over an active cycle before its last value. -/
theorem computeCnt_step {s : CoreState} {i : CoreInput}
    (hs : s.currentState = .compute ∨
      s.currentState = .store ∧ s.computeCnt.toNat ≠ 0)
    (hlt : s.computeCnt.toNat < 10) :
    (s.step i).computeCnt.toNat = s.computeCnt.toNat + 1 := by
  have hne : s.computeCnt ≠ 10#4 := by
    intro heq
    simp [heq] at hlt
  have hD : s.computeCntD = s.computeCnt + 1 := by
    rcases hs with hs | ⟨hs, hzero⟩
    · simp [CoreState.computeCntD, hs, hne]
    · have hne0 : s.computeCnt ≠ 0#4 := by
        intro heq
        simp [heq] at hzero
      simp [CoreState.computeCntD, hs, hne, hne0]
  change s.computeCntD.toNat = _
  rw [hD, BitVec.toNat_add]
  exact Nat.mod_eq_of_lt (by simp; omega)

/-- At most one response is counted in a cycle. -/
theorem storeRspRcptCnt_step_le (s : CoreState) (i : CoreInput) :
    (s.step i).storeRspRcptCnt.toNat ≤ s.storeRspRcptCnt.toNat + 1 := by
  change (s.storeRspRcptCntD i).toNat ≤ _
  unfold CoreState.storeRspRcptCntD
  split_ifs
  · rw [BitVec.toNat_add]
    exact Nat.mod_le _ _
  · omega
  · simp

section Step

variable {s : CoreState} {i : CoreInput}

/-- Before {lit}`COMPUTE` the array is clean. -/
private theorem pipelineInv_zero (h : PipelineInv s)
    (hnext : (s.step i).currentState = .idle ∨ (s.step i).currentState = .loadWeight ∨
      (s.step i).currentState = .loadImage) :
    PipelineZero (s.step i) ∧ (s.step i).mode ≠ .single := by
  have hprev : (s.currentState = .idle ∨ s.currentState = .loadWeight ∨
      s.currentState = .loadImage ∧ s.imageDataRcptDone = false) ∨
      s.currentState = .done := by
    rcases hnext with hnext | hnext | hnext
    · have := (CoreState.nextState_eq_idle.mp hnext).1
      tauto
    · have := CoreState.nextState_eq_loadWeight.mp hnext
      tauto
    · have := CoreState.nextState_eq_loadImage.mp hnext
      tauto
  have hmode : (s.step i).mode ≠ .single := by
    intro hsingle
    have hwindow := modeD_eq_single_iff.mp hsingle
    rcases hprev with (hs | hs | ⟨hs, hrcpt⟩) | hs
    · simp [hs] at hwindow
    · simp [hs] at hwindow
    · simp [hs, hrcpt] at hwindow
    · simp [hs] at hwindow
  refine ⟨?_, hmode⟩
  rcases hprev with hquiet | hdone
  · obtain ⟨hzero, hne⟩ := h.zero (by tauto)
    have hcompute : s.currentState ≠ .compute := by
      rcases hquiet with hs | hs | ⟨hs, _⟩ <;> simp [hs]
    exact pipelineZero_step hzero hne hcompute i
  · exact pipelineZero_of_done h hdone i

/-- In {lit}`COMPUTE` it runs. -/
private theorem pipelineInv_compute (h : PipelineInv s)
    (hnext : (s.step i).currentState = .compute) :
    (s.step i).mode = .single ∧ (s.step i).computeCnt.toNat ≤ 4 ∧
      (s.step i).storeRspRcptCnt = 0 := by
  rcases CoreState.nextState_eq_compute.mp hnext with ⟨hs, hrcpt⟩ | ⟨hs, hcnt⟩
  · have hcnt := (h.zero (Or.inr (Or.inr hs))).1.computeCnt
    exact ⟨modeD_eq_single_iff.mpr (Or.inl ⟨hs, hrcpt⟩),
      by simp [CoreState.step, CoreState.computeCntD, hs, hcnt],
      by simp [CoreState.step, CoreState.storeRspRcptCntD, hs]⟩
  · have hle := (h.compute hs).2.1
    have hne : s.computeCnt.toNat ≠ 4 := by
      intro heq
      exact hcnt (BitVec.eq_of_toNat_eq heq)
    have hstep := computeCnt_step (i := i) (Or.inl hs) (by omega)
    exact ⟨modeD_eq_single_iff.mpr (Or.inr (Or.inl hs)), by omega,
      by simp [CoreState.step, CoreState.storeRspRcptCntD, hs]⟩

/-- In {lit}`STORE` it runs until the counter is ten, and then rests. -/
private theorem pipelineInv_store (h : PipelineInv s)
    (hnext : (s.step i).currentState = .store) :
    (s.step i).mode = .disable ∧ (s.step i).computeCnt = 0 ∨
      (s.step i).mode = .single ∧
        (s.step i).storeRspRcptCnt.toNat + 5 ≤ (s.step i).computeCnt.toNat ∧
        (s.step i).computeCnt.toNat ≤ 10 := by
  rcases CoreState.nextState_eq_store.mp hnext with ⟨hs, hcnt⟩ | ⟨hs, hdone⟩
  · have hstep := computeCnt_step (i := i) (Or.inl hs) (by simp [hcnt])
    have hrsp : (s.step i).storeRspRcptCnt = 0 := by
      simp [CoreState.step, CoreState.storeRspRcptCntD, hs]
    right
    refine ⟨modeD_eq_single_iff.mpr (Or.inr (Or.inl hs)), ?_, ?_⟩ <;>
      simp [hstep, hrsp, hcnt]
  · rcases h.store hs with ⟨_, hcnt⟩ | ⟨_, hlow, hhigh⟩
    · left
      constructor <;>
        simp [CoreState.step, CoreState.modeD, CoreState.computeCntD, hs, hcnt, hdone]
    · by_cases hlast : s.computeCnt.toNat = 10
      · have heq : s.computeCnt = 10 := BitVec.eq_of_toNat_eq hlast
        left
        constructor <;> simp [CoreState.step, CoreState.modeD, CoreState.computeCntD, hs, heq]
      · have hstep := computeCnt_step (i := i) (Or.inr ⟨hs, by omega⟩) (by omega)
        have hrsp := storeRspRcptCnt_step_le s i
        right
        exact ⟨modeD_eq_single_iff.mpr (Or.inr (Or.inr ⟨hs, by omega, by omega⟩)),
          by omega, by omega⟩

/-- In {lit}`DONE` it is cleared first, and is clean then. -/
private theorem pipelineInv_done (h : PipelineInv s)
    (hnext : (s.step i).currentState = .done) :
    (s.step i).mode = .clear ∧ (s.step i).computeCnt = 0 ∧
      (s.step i).inWeight = (Bank.ofFn fun _ => 0) ∧
      (s.step i).inData = (Bank.ofFn fun _ => 0) ∨
      (s.step i).mode = .disable ∧ PipelineZero (s.step i) := by
  rcases CoreState.nextState_eq_done.mp hnext with ⟨hs, hdone⟩ | ⟨hs, _⟩
  · have hrsp := CoreState.storeDone_iff.mp hdone
    -- Sixteen counted responses leave no room for a running sweep.
    rcases h.store hs with ⟨hmode, hcnt⟩ | ⟨_, hlow, hhigh⟩
    · left
      have hne : s.mode ≠ .single := by simp [hmode]
      refine ⟨?_, ?_, (step_skew_of_ne_single hne i).1, (step_skew_of_ne_single hne i).2⟩ <;>
        simp [CoreState.step, CoreState.modeD, CoreState.computeCntD, hs, hcnt, hdone]
    · rw [hrsp] at hlow
      simp at hlow
      omega
  · have hzero := pipelineZero_of_done h hs i
    cases hd : s.storeDone
    · right
      exact ⟨by simp [CoreState.step, CoreState.modeD, hs, hd], hzero⟩
    · left
      exact ⟨by simp [CoreState.step, CoreState.modeD, hs, hd], hzero.computeCnt,
        hzero.inWeight, hzero.inData⟩

/-- Every clock edge keeps the invariant of the pipeline. -/
theorem pipelineInv_step (h : PipelineInv s) (i : CoreInput) : PipelineInv (s.step i) where
  zero := pipelineInv_zero h
  compute := pipelineInv_compute h
  store := pipelineInv_store h
  done := pipelineInv_done h

end Step

/-- It holds along every run as well. -/
theorem pipelineInv_run (inp : Nat → CoreInput) (n : Nat) : PipelineInv (coreRun inp n) :=
  run_invariant_all pipelineInv_reset (fun _ i h => pipelineInv_step h i) inp n

/-! ## Entering the compute phase -/

/-- The state in which the controller enters {lit}`COMPUTE`: the pipeline is
zero and the array is switched on. -/
structure CleanStart (s : CoreState) : Prop extends PipelineZero s where
  currentState : s.currentState = .compute
  mode : s.mode = .single
  storeRspRcptCnt : s.storeRspRcptCnt = 0

/-- Leaving {lit}`LOAD_IMAGE` switches the array on and keeps the store counters
cleared. -/
theorem cleanStart_of_zero {s : CoreState} {i : CoreInput}
    (hs : s.currentState = .loadImage) (hrcpt : s.imageDataRcptDone = true)
    (hzero : PipelineZero (s.step i)) : CleanStart (s.step i) where
  toPipelineZero := hzero
  currentState := CoreState.nextState_eq_compute.mpr (Or.inl ⟨hs, hrcpt⟩)
  mode := modeD_eq_single_iff.mpr (Or.inl ⟨hs, hrcpt⟩)
  storeRspRcptCnt := by simp [CoreState.step, CoreState.storeRspRcptCntD, hs]

/-- Whenever the controller enters {lit}`COMPUTE`, it starts clean. -/
theorem cleanStart_of_enters {s : CoreState} {i : CoreInput} (h : PipelineInv s)
    (hs : s.currentState ≠ .compute) (hnext : (s.step i).currentState = .compute) :
    CleanStart (s.step i) := by
  rcases CoreState.nextState_eq_compute.mp hnext with ⟨hload, hrcpt⟩ | ⟨hcompute, _⟩
  · obtain ⟨hzero, hmode⟩ := h.zero (Or.inr (Or.inr hload))
    exact cleanStart_of_zero hload hrcpt
      (pipelineZero_step hzero hmode (by simp [hload]) i)
  · exact absurd hcompute hs

/-- Whatever the bus does, every computation of a run from reset starts with a zero
counter, zero accumulators, and zero skew and forwarding registers. -/
theorem compute_starts_clean (inp : Nat → CoreInput) (n : Nat)
    (hout : (coreRun inp n).currentState ≠ .compute)
    (hin : (coreRun inp (n + 1)).currentState = .compute) :
    (coreRun inp (n + 1)).computeCnt = 0 ∧
      (∀ lane, (coreRun inp (n + 1)).inWeight lane = 0 ∧
        (coreRun inp (n + 1)).inData lane = 0) ∧
      ∀ r c, (coreRun inp (n + 1)).peArray r c =
        { result := 0, dataOut := 0, weightOut := 0 } := by
  have hclean : CleanStart (coreRun inp (n + 1)) :=
    cleanStart_of_enters (pipelineInv_run inp n) hout hin
  refine ⟨hclean.computeCnt, ?_, ?_⟩
  · intro lane
    rw [hclean.inWeight, hclean.inData]
    exact ⟨Bank.ofFn_get _ lane, Bank.ofFn_get _ lane⟩
  · intro r c
    rw [hclean.peArray]
    exact Bank.table_get _ r c

/-- A bus that answers in every cycle, whether or not something was asked, under a
processor that drops the enable bit for one cycle. -/
def floodedInput (n : Nat) : CoreInput where
  enable := n != 59
  cnnIcbCmdReady := n % 2 == 0
  cnnIcbRspValid := true
  cnnIcbRspRdata := BitVec.ofNat 32 (n + 1)

/-- The second job of the flooded core starts clean too. -/
theorem compute_starts_clean_flooded :
    (coreRun floodedInput 79).computeCnt = 0 ∧
      (∀ lane, (coreRun floodedInput 79).inWeight lane = 0 ∧
        (coreRun floodedInput 79).inData lane = 0) ∧
      ∀ r c, (coreRun floodedInput 79).peArray r c =
        { result := 0, dataOut := 0, weightOut := 0 } :=
  compute_starts_clean floodedInput 78 (by decide +kernel) (by decide +kernel)

end CnnCore
end AcceleratorSoc
