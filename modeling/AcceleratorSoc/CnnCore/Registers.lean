import AcceleratorSoc.CnnCore.PeArray

/-!
# Registers and wires of the accelerator core

Data model of {lit}`cnn_core`: its registers, its input ports, its reset state,
and the combinational wires computed from them.  Register banks that the source
numbers {lit}`_00` to {lit}`_33` are indexed by row and column.

Main results:

- Definition {lit}`CoreState`, {lit}`CoreInput`: registers and input ports.
- Definition {lit}`CoreState.reset`: the registers while reset is active.
- Definition {lit}`CoreState.storeDataSendNext`: the data of the next write.
-/

namespace AcceleratorSoc
namespace CnnCore

open Clocked

/-- The states of the main controller. -/
inductive FsmState
  | idle
  | loadWeight
  | loadImage
  | compute
  | store
  | done
deriving DecidableEq

/-- The comparison of two states is that of their names. -/
@[simp]
theorem FsmState.beq_eq_decide (a b : FsmState) : (a == b) = decide (a = b) :=
  rfl

/-- {lit}`weight_addr`: where the weight block begins. -/
def weightAddr : Word := 0x00002000

/-- {lit}`image_addr`: where the image block begins. -/
def imageAddr : Word := 0x40000000

/-- {lit}`out_addr`: where the results begin. -/
def outAddr : Word := 0x60000000

/-- Every register of the core. -/
structure CoreState where
  currentState : FsmState
  mode : Mode
  computeCnt : BitVec 4
  done : Bool
  cnnIcbCmdValid : Bool
  cnnIcbCmdRead : Bool
  cnnIcbCmdAddr : Word
  cnnIcbCmdWdata : Word
  weightAddrNext : Word
  weightAddrSendCnt : BitVec 4
  weightAddrSendDone : Bool
  weightDataRcptCnt : BitVec 5
  curWeight : Bank (Bank Word)
  imageAddrNext : Word
  imageAddrSendCnt : BitVec 4
  imageAddrSendDone : Bool
  imageDataRcptCnt : BitVec 5
  imageData : Bank (Bank Word)
  inWeight : Bank Word
  inData : Bank Word
  peArray : PeArray
  storeDataSendCnt : BitVec 5
  storeRspRcptCnt : BitVec 5
  storeDataAddrNext : Word
  storeDataSendNextCnt : BitVec 4

/-- The input ports sampled at a clock edge. -/
structure CoreInput where
  enable : Bool
  cnnIcbCmdReady : Bool
  cnnIcbRspValid : Bool
  cnnIcbRspRdata : Word

namespace CoreState

/-- The registers while {lit}`rst_n` is low. -/
def reset : CoreState where
  currentState := .idle
  mode := .disable
  computeCnt := 0
  done := false
  cnnIcbCmdValid := false
  cnnIcbCmdRead := false
  cnnIcbCmdAddr := 0
  cnnIcbCmdWdata := 0
  weightAddrNext := weightAddr
  weightAddrSendCnt := 0
  weightAddrSendDone := false
  weightDataRcptCnt := 0
  curWeight := Bank.table fun _ _ => 0
  imageAddrNext := imageAddr
  imageAddrSendCnt := 0
  imageAddrSendDone := false
  imageDataRcptCnt := 0
  imageData := Bank.table fun _ _ => 0
  inWeight := Bank.ofFn fun _ => 0
  inData := Bank.ofFn fun _ => 0
  peArray := PeArray.reset
  storeDataSendCnt := 0
  storeRspRcptCnt := 0
  storeDataAddrNext := outAddr
  storeDataSendNextCnt := 0

/-! ## Handshakes -/

/-- All four byte lanes are written. -/
def cnnIcbCmdWmask : BitVec 4 := 0b1111

/-- The core never holds a response back. -/
def cnnIcbRspReady : Bool := true

/-- A command is handed over. -/
def cnnIcbCmdHsk (s : CoreState) (i : CoreInput) : Bool :=
  s.cnnIcbCmdValid && i.cnnIcbCmdReady

/-- A read is handed over. -/
def cnnIcbCmdRdHsk (s : CoreState) (i : CoreInput) : Bool :=
  s.cnnIcbCmdHsk i && s.cnnIcbCmdRead

/-- A write is handed over. -/
def cnnIcbCmdWrHsk (s : CoreState) (i : CoreInput) : Bool :=
  s.cnnIcbCmdHsk i && !s.cnnIcbCmdRead

/-- The command registers may take a new command. -/
def sendUpdateControl (s : CoreState) (i : CoreInput) : Bool :=
  !s.cnnIcbCmdValid || i.cnnIcbCmdReady

/-- A response is taken. -/
def cnnIcbRspHsk (i : CoreInput) : Bool :=
  i.cnnIcbRspValid && cnnIcbRspReady

/-! ## Phase wires -/

/-- {lit}`LOAD_WEIGHT` has a read to present. -/
def weightAddrSendStart (s : CoreState) : Bool :=
  s.currentState == .loadWeight && !s.weightAddrSendDone

/-- All sixteen weight words have come. -/
def weightDataRcptDone (s : CoreState) : Bool :=
  s.weightDataRcptCnt == 16

/-- {lit}`LOAD_IMAGE` has a read to present. -/
def imageAddrSendStart (s : CoreState) : Bool :=
  s.currentState == .loadImage && !s.imageAddrSendDone

/-- All sixteen image words have come. -/
def imageDataRcptDone (s : CoreState) : Bool :=
  s.imageDataRcptCnt == 16

/-- The sixteenth write is handed over in this cycle, or was before. -/
def storeDataSendDone (s : CoreState) (i : CoreInput) : Bool :=
  s.storeDataSendCnt == 15 && i.cnnIcbCmdReady || s.storeDataSendCnt == 16

/-- {lit}`STORE` has a write to present. -/
def storeDataSendStart (s : CoreState) (i : CoreInput) : Bool :=
  s.currentState == .store && !s.storeDataSendDone i

/-- All sixteen writes have been answered. -/
def storeDone (s : CoreState) : Bool :=
  s.storeRspRcptCnt == 16

/-! ## Data wires -/

/-- The accumulator outputs {lit}`result_rc` of the array. -/
def result (s : CoreState) (r c : Fin 4) : Word :=
  (s.peArray r c).result

/-- The sixteen wires {lit}`gelu_rc`. -/
def geluWire (s : CoreState) (r c : Fin 4) : Word :=
  gelu (s.result r c)

/-- The wire selected by the store index: row in its upper two bits, column in
its lower two. -/
def geluAt (s : CoreState) (index : BitVec 4) : Word :=
  s.geluWire ⟨index.toNat / 4, by omega⟩ ⟨index.toNat % 4, by omega⟩

/-- Write data for the next store command; the sixteen branches of the source
pick {lit}`gelu_00` to {lit}`gelu_33` in index order. -/
def storeDataSendNext (s : CoreState) (i : CoreInput) : Word :=
  if s.storeDataSendStart i && s.sendUpdateControl i then s.geluAt s.storeDataSendNextCnt
  else 0

end CoreState

end CnnCore
end AcceleratorSoc
