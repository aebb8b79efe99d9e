import AcceleratorSoc.Clocked.Run
import AcceleratorSoc.CnnCore.Registers

/-!
# One clock edge of the accelerator core

Every register of {lit}`cnn_core` has one always block; its next value is the
definition whose name ends in {lit}`D`.  All registers change at once.

Main results:

- Definition {lit}`CoreState.step`: one rising clock edge.
- Theorem {lit}`nextState_eq_store` and its siblings: the states from which the controller
  goes to a given one.
- Theorem {lit}`step_valid_iff`: a command is presented in the next cycle exactly when a
  phase starts one.
- Definition {lit}`coreRun`: the core from reset on.
-/

namespace AcceleratorSoc
namespace CnnCore

open Clocked

namespace CoreState

/-- The combinational {lit}`next_state` of the controller. -/
def nextState (s : CoreState) (i : CoreInput) : FsmState :=
  match s.currentState with
  | .idle => if i.enable then .loadWeight else .idle
  | .loadWeight => if s.weightDataRcptDone then .loadImage else .loadWeight
  | .loadImage => if s.imageDataRcptDone then .compute else .loadImage
  | .compute => if s.computeCnt == 0b0100 then .store else .compute
  | .store => if s.storeDone then .done else .store
  | .done => if i.enable then .done else .idle

/-- The array runs from the end of {lit}`LOAD_IMAGE` until the counter reaches ten in
{lit}`STORE`, and is cleared when the writes have been answered. -/
def modeD (s : CoreState) : Mode :=
  if s.currentState == .loadImage && s.imageDataRcptDone || s.currentState == .compute ||
      s.currentState == .store && decide (s.computeCnt < 0b1010) &&
        decide (s.computeCnt > 0b0100) then .single
  else if s.currentState == .store && s.computeCnt == 0b1010 then .disable
  else if s.storeDone then .clear
  else .disable

/-- The {lit}`done` output. -/
def doneD (s : CoreState) : Bool :=
  s.currentState == .done

/-! ## Command channel -/

/-- A command is presented in the next cycle. -/
def cnnIcbCmdValidD (s : CoreState) (i : CoreInput) : Bool :=
  s.weightAddrSendStart || s.imageAddrSendStart || s.storeDataSendStart i

/-- The load phases read. -/
def cnnIcbCmdReadD (s : CoreState) : Bool :=
  s.weightAddrSendStart || s.imageAddrSendStart

/-- The address of the command; it is held while the slave stalls. -/
def cnnIcbCmdAddrD (s : CoreState) (i : CoreInput) : Word :=
  if s.weightAddrSendStart && s.sendUpdateControl i then s.weightAddrNext
  else if s.imageAddrSendStart && s.sendUpdateControl i then s.imageAddrNext
  else if s.storeDataSendStart i && s.sendUpdateControl i then s.storeDataAddrNext
  else if (s.weightAddrSendStart || s.imageAddrSendStart || s.storeDataSendStart i) &&
      !i.cnnIcbCmdReady then s.cnnIcbCmdAddr
  else 0

/-- The data of a write, held in the same way. -/
def cnnIcbCmdWdataD (s : CoreState) (i : CoreInput) : Word :=
  if s.storeDataSendStart i && s.sendUpdateControl i then s.storeDataSendNext i
  else if s.storeDataSendStart i && !i.cnnIcbCmdReady then s.cnnIcbCmdWdata
  else 0

/-! ## Weight phase -/

/-- Set when the counter has reached fifteen, and cleared by reset only. -/
def weightAddrSendDoneD (s : CoreState) : Bool :=
  if s.weightAddrSendCnt == 0b1111 then true else s.weightAddrSendDone

/-- The address of the next weight read. -/
def weightAddrNextD (s : CoreState) (i : CoreInput) : Word :=
  if s.currentState == .idle then weightAddr
  else if s.weightAddrSendStart && s.sendUpdateControl i then s.weightAddrNext + 4
  else s.weightAddrNext

/-- Weight reads handed over; the count stops at fifteen. -/
def weightAddrSendCntD (s : CoreState) (i : CoreInput) : BitVec 4 :=
  if s.weightAddrSendCnt == 0b1111 then s.weightAddrSendCnt
  else if s.currentState == .loadWeight && s.cnnIcbCmdRdHsk i then s.weightAddrSendCnt + 1
  else s.weightAddrSendCnt

/-- Weight words received; the count stays at sixteen for good. -/
def weightDataRcptCntD (s : CoreState) (i : CoreInput) : BitVec 5 :=
  if s.weightDataRcptCnt == 16 then s.weightDataRcptCnt
  else if s.currentState == .loadWeight && cnnIcbRspHsk i then s.weightDataRcptCnt + 1
  else if s.currentState == .loadWeight && !cnnIcbRspHsk i then s.weightDataRcptCnt
  else 0

/-- The sixteen weight buffer registers: register {lit}`_rc` takes response
{lit}`4r+c` of the phase. -/
def curWeightD (s : CoreState) (i : CoreInput) (r c : Fin 4) : Word :=
  if s.currentState == .loadWeight && cnnIcbRspHsk i &&
      s.weightDataRcptCnt == BitVec.ofNat 5 (4 * r.val + c.val) then i.cnnIcbRspRdata
  else s.curWeight r c

/-! ## Image phase -/

/-- Set when the counter has reached fifteen, and cleared by reset only. -/
def imageAddrSendDoneD (s : CoreState) : Bool :=
  if s.imageAddrSendCnt == 0b1111 then true else s.imageAddrSendDone

/-- Image reads handed over, modulo sixteen. -/
def imageAddrSendCntD (s : CoreState) (i : CoreInput) : BitVec 4 :=
  if s.currentState == .loadImage && s.cnnIcbCmdRdHsk i then s.imageAddrSendCnt + 1
  else s.imageAddrSendCnt

/-- The address of the next image read. -/
def imageAddrNextD (s : CoreState) (i : CoreInput) : Word :=
  if s.currentState == .idle || s.currentState == .loadWeight then imageAddr
  else if s.imageAddrSendStart && s.sendUpdateControl i then s.imageAddrNext + 4
  else s.imageAddrNext

/-- Image words received in this visit. -/
def imageDataRcptCntD (s : CoreState) (i : CoreInput) : BitVec 5 :=
  if s.currentState == .loadImage && cnnIcbRspHsk i then s.imageDataRcptCnt + 1
  else if s.currentState == .loadImage && !cnnIcbRspHsk i then s.imageDataRcptCnt
  else 0

/-- The sixteen image buffer registers. -/
def imageDataD (s : CoreState) (i : CoreInput) (r c : Fin 4) : Word :=
  if s.currentState == .loadImage && cnnIcbRspHsk i &&
      s.imageDataRcptCnt == BitVec.ofNat 5 (4 * r.val + c.val) then i.cnnIcbRspRdata
  else s.imageData r c

/-! ## Compute phase -/

/-- Counts the cycles of {lit}`COMPUTE` and goes on in {lit}`STORE`, up to ten. -/
def computeCntD (s : CoreState) : BitVec 4 :=
  if s.computeCnt == 0b1010 then 0
  else if s.currentState == .store && s.computeCnt == 0b0000 then 0
  else if s.currentState == .compute || s.currentState == .store then s.computeCnt + 1
  else s.computeCnt

/-- The multiplexer in front of an array input: lane {lit}`lane` passes its four
words at counts {lit}`lane` to {lit}`lane + 3` and zero otherwise. -/
def laneMux (mode : Mode) (cnt : BitVec 4) (lane : Fin 4) (words : Bank Word) : Word :=
  if cnt == BitVec.ofNat 4 lane.val && mode == .single then words 0
  else if cnt == BitVec.ofNat 4 (lane.val + 1) && mode == .single then words 1
  else if cnt == BitVec.ofNat 4 (lane.val + 2) && mode == .single then words 2
  else if cnt == BitVec.ofNat 4 (lane.val + 3) && mode == .single then words 3
  else 0

/-- The registers {lit}`in_weight_0` to {lit}`in_weight_3`. -/
def inWeightD (s : CoreState) (c : Fin 4) : Word :=
  laneMux s.mode s.computeCnt c (s.curWeight c)

/-- The registers {lit}`in_data_0` to {lit}`in_data_3`. -/
def inDataD (s : CoreState) (r : Fin 4) : Word :=
  laneMux s.mode s.computeCnt r (s.imageData r)

/-! ## Store phase -/

/-- Writes handed over in this visit. -/
def storeDataSendCntD (s : CoreState) (i : CoreInput) : BitVec 5 :=
  if s.currentState == .store && s.cnnIcbCmdWrHsk i then s.storeDataSendCnt + 1
  else if s.currentState == .store && !s.cnnIcbCmdWrHsk i then s.storeDataSendCnt
  else 0

/-- Responses received in this visit. -/
def storeRspRcptCntD (s : CoreState) (i : CoreInput) : BitVec 5 :=
  if s.currentState == .store && cnnIcbRspHsk i then s.storeRspRcptCnt + 1
  else if s.currentState == .store && !cnnIcbRspHsk i then s.storeRspRcptCnt
  else 0

/-- The address of the next write, one byte on. -/
def storeDataAddrNextD (s : CoreState) (i : CoreInput) : Word :=
  if s.storeDataSendStart i && s.sendUpdateControl i then s.storeDataAddrNext + 1
  else if s.storeDataSendStart i && s.cnnIcbCmdValid && !i.cnnIcbCmdReady then
    s.storeDataAddrNext
  else outAddr

/-- The index of the next result. -/
def storeDataSendNextCntD (s : CoreState) (i : CoreInput) : BitVec 4 :=
  if s.storeDataSendStart i && s.sendUpdateControl i then s.storeDataSendNextCnt + 1
  else if s.storeDataSendStart i && s.cnnIcbCmdValid && !i.cnnIcbCmdReady then
    s.storeDataSendNextCnt
  else 0

/-- One rising clock edge out of reset. -/
def step (s : CoreState) (i : CoreInput) : CoreState where
  currentState := s.nextState i
  mode := s.modeD
  computeCnt := s.computeCntD
  done := s.doneD
  cnnIcbCmdValid := s.cnnIcbCmdValidD i
  cnnIcbCmdRead := s.cnnIcbCmdReadD
  cnnIcbCmdAddr := s.cnnIcbCmdAddrD i
  cnnIcbCmdWdata := s.cnnIcbCmdWdataD i
  weightAddrNext := s.weightAddrNextD i
  weightAddrSendCnt := s.weightAddrSendCntD i
  weightAddrSendDone := s.weightAddrSendDoneD
  weightDataRcptCnt := s.weightDataRcptCntD i
  curWeight := Bank.table (s.curWeightD i)
  imageAddrNext := s.imageAddrNextD i
  imageAddrSendCnt := s.imageAddrSendCntD i
  imageAddrSendDone := s.imageAddrSendDoneD
  imageDataRcptCnt := s.imageDataRcptCntD i
  imageData := Bank.table (s.imageDataD i)
  inWeight := Bank.ofFn s.inWeightD
  inData := Bank.ofFn s.inDataD
  peArray := PeArray.step s.peArray s.mode s.inData s.inWeight
  storeDataSendCnt := s.storeDataSendCntD i
  storeRspRcptCnt := s.storeRspRcptCntD i
  storeDataAddrNext := s.storeDataAddrNextD i
  storeDataSendNextCnt := s.storeDataSendNextCntD i

/-! ## Predecessors of a controller state -/

variable {s : CoreState} {i : CoreInput}

/-- {lit}`IDLE` is next while the core is not enabled. -/
theorem nextState_eq_idle :
    s.nextState i = .idle ↔
      (s.currentState = .idle ∨ s.currentState = .done) ∧ i.enable = false := by
  cases hs : s.currentState <;> simp [nextState, hs, ite_eq_iff]

/-- {lit}`LOAD_WEIGHT` is next when the core is enabled, or while words are missing. -/
theorem nextState_eq_loadWeight :
    s.nextState i = .loadWeight ↔
      s.currentState = .idle ∧ i.enable = true ∨
        s.currentState = .loadWeight ∧ s.weightDataRcptDone = false := by
  cases hs : s.currentState <;> simp [nextState, hs, ite_eq_iff]

/-- {lit}`LOAD_IMAGE` comes after {lit}`LOAD_WEIGHT`. -/
theorem nextState_eq_loadImage :
    s.nextState i = .loadImage ↔
      s.currentState = .loadWeight ∧ s.weightDataRcptDone = true ∨
        s.currentState = .loadImage ∧ s.imageDataRcptDone = false := by
  cases hs : s.currentState <;> simp [nextState, hs, ite_eq_iff]

/-- {lit}`COMPUTE` comes after {lit}`LOAD_IMAGE` and lasts until the counter is four. -/
theorem nextState_eq_compute :
    s.nextState i = .compute ↔
      s.currentState = .loadImage ∧ s.imageDataRcptDone = true ∨
        s.currentState = .compute ∧ s.computeCnt ≠ 4 := by
  cases hs : s.currentState <;> simp [nextState, hs, ite_eq_iff]

/-- {lit}`STORE` comes after {lit}`COMPUTE` and lasts until all writes have been answered. -/
theorem nextState_eq_store :
    s.nextState i = .store ↔
      s.currentState = .compute ∧ s.computeCnt = 4 ∨
        s.currentState = .store ∧ s.storeDone = false := by
  cases hs : s.currentState <;> simp [nextState, hs, ite_eq_iff]

/-- {lit}`DONE` comes after {lit}`STORE` and lasts while the core is enabled. -/
theorem nextState_eq_done :
    s.nextState i = .done ↔
      s.currentState = .store ∧ s.storeDone = true ∨
        s.currentState = .done ∧ i.enable = true := by
  cases hs : s.currentState <;> simp [nextState, hs, ite_eq_iff]

/-- {lit}`STORE` is followed by {lit}`DONE`. -/
theorem nextState_of_store (hs : s.currentState = .store) :
    s.nextState i = .store ∨ s.nextState i = .done := by
  cases hdone : s.storeDone
  · exact Or.inl (nextState_eq_store.mpr (Or.inr ⟨hs, hdone⟩))
  · exact Or.inr (nextState_eq_done.mpr (Or.inl ⟨hs, hdone⟩))

/-- The wire compares the counter with sixteen. -/
theorem storeDone_iff : s.storeDone = true ↔ s.storeRspRcptCnt = 16 := by
  simp [storeDone]

/-- With fewer responses it is down. -/
theorem storeDone_eq_false (h : s.storeRspRcptCnt.toNat ≤ 15) : s.storeDone = false := by
  rw [Bool.eq_false_iff]
  intro hdone
  simp [storeDone_iff.mp hdone] at h

/-- {lit}`STORE` is left only when sixteen responses are counted. -/
theorem storeDone_of_leaves (hs : s.currentState = .store)
    (hleft : (s.step i).currentState ≠ .store) : s.storeDone = true := by
  rw [← Bool.not_eq_false]
  intro hdone
  exact hleft (nextState_eq_store.mpr (Or.inr ⟨hs, hdone⟩))

/-! ## When a phase starts a command -/

/-- A weight read is presented in {lit}`LOAD_WEIGHT` while the send-done flag is down. -/
theorem weightAddrSendStart_iff :
    s.weightAddrSendStart = true ↔
      s.currentState = .loadWeight ∧ s.weightAddrSendDone = false := by
  simp [weightAddrSendStart]

/-- An image read is presented in {lit}`LOAD_IMAGE` while the send-done flag is down. -/
theorem imageAddrSendStart_iff :
    s.imageAddrSendStart = true ↔
      s.currentState = .loadImage ∧ s.imageAddrSendDone = false := by
  simp [imageAddrSendStart]

/-- A write is presented in {lit}`STORE` while not all have been handed over. -/
theorem storeDataSendStart_iff :
    s.storeDataSendStart i = true ↔
      s.currentState = .store ∧ s.storeDataSendDone i = false := by
  simp [storeDataSendStart]

/-- A command is presented in the next cycle exactly when the start wire of the
current phase is up. -/
theorem step_valid_iff :
    (s.step i).cnnIcbCmdValid = true ↔
      s.weightAddrSendStart = true ∨ s.imageAddrSendStart = true ∨
        s.storeDataSendStart i = true := by
  simp [step, cnnIcbCmdValidD, or_assoc]

/-- In {lit}`LOAD_WEIGHT` a command is presented next exactly when a weight read is
started. -/
theorem step_valid_of_loadWeight (hs : s.currentState = .loadWeight) :
    (s.step i).cnnIcbCmdValid = s.weightAddrSendStart := by
  simp [step, cnnIcbCmdValidD, imageAddrSendStart, storeDataSendStart, hs]

/-- In {lit}`LOAD_IMAGE` a command is presented next exactly when an image read is
started. -/
theorem step_valid_of_loadImage (hs : s.currentState = .loadImage) :
    (s.step i).cnnIcbCmdValid = s.imageAddrSendStart := by
  simp [step, cnnIcbCmdValidD, weightAddrSendStart, storeDataSendStart, hs]

/-- In {lit}`STORE` a command is presented next exactly when a write is started. -/
theorem step_valid_of_store (hs : s.currentState = .store) :
    (s.step i).cnnIcbCmdValid = s.storeDataSendStart i := by
  simp [step, cnnIcbCmdValidD, weightAddrSendStart, imageAddrSendStart, hs]

/-- The other states present nothing next. -/
theorem step_valid_of_quiet
    (hs : s.currentState = .idle ∨ s.currentState = .compute ∨ s.currentState = .done) :
    (s.step i).cnnIcbCmdValid = false := by
  rcases hs with hs | hs | hs <;>
    simp [step, cnnIcbCmdValidD, weightAddrSendStart, imageAddrSendStart, storeDataSendStart,
      hs]

end CoreState

/-- The core out of reset, cycle by cycle, on an input sequence. -/
def coreRun (inp : Nat → CoreInput) : Nat → CoreState :=
  run CoreState.step CoreState.reset inp

end CnnCore
end AcceleratorSoc
