import AcceleratorSoc.CnnCore.Bus

/-!
# Control block and top level of the accelerator

{lit}`cnn_control` gives the processor two registers: {lit}`CNNCTR`, whose bit 0
enables the core, and {lit}`CNNSTATUS`, which shows the core's done wire.
{lit}`cnn_top` joins it to the core.

Main results:

- Theorem {lit}`ControlState.samples_iff`: when a status read samples one.
- Theorem {lit}`topRun_bus`: the core inside {lit}`cnn_top` runs as the observed
  core does, enabled by the control register.
-/

namespace AcceleratorSoc
namespace CnnTop

open Clocked CnnCore

/-! ## The control block -/

/-- Registers of {lit}`cnn_control`. -/
structure ControlState where
  cnnctr : BitVec 8
  cfgIcbRspValid : Bool
  cfgIcbRspRdata : BitVec 32

/-- The configuration channel in one cycle. -/
structure ControlInput where
  cfgIcbCmdValid : Bool
  cfgIcbCmdAddr : BitVec 32
  cfgIcbCmdRead : Bool
  cfgIcbCmdWdata : BitVec 32
  cfgIcbCmdWmask : BitVec 4
  cfgIcbRspReady : Bool

/-- Register offsets, compared with the low three address bits. -/
def cnnCtr : BitVec 3 := 0
/-- Offset of {lit}`CNNSTATUS`. -/
def cnnStatus : BitVec 3 := 4

/-- The control block is always ready. -/
def cfgIcbCmdReady : Bool := true

namespace ControlInput

/-- A command is taken. -/
def cfgIcbCmdHsk (i : ControlInput) : Bool :=
  i.cfgIcbCmdValid && cfgIcbCmdReady

/-- A write is taken. -/
def cfgIcbCmdWrHsk (i : ControlInput) : Bool :=
  i.cfgIcbCmdHsk && !i.cfgIcbCmdRead

/-- A read is taken. -/
def cfgIcbCmdRdHsk (i : ControlInput) : Bool :=
  i.cfgIcbCmdHsk && i.cfgIcbCmdRead

/-- {lit}`cfg_icb_cmd_addr[2:0]`. -/
def offset (i : ControlInput) : BitVec 3 :=
  i.cfgIcbCmdAddr.extractLsb' 0 3

end ControlInput

namespace ControlState

/-- The registers while {lit}`rst_n` is low. -/
def reset : ControlState where
  cnnctr := 0
  cfgIcbRspValid := false
  cfgIcbRspRdata := 0

/-- Bit zero of {lit}`CNNCTR`. -/
def enable (s : ControlState) : Bool :=
  s.cnnctr.getLsbD 0

/-- The read-only register {lit}`CNNSTATUS`. -/
def cnnstatus (done : Bool) : BitVec 8 :=
  if done then 1 else 0

/-- Next value of {lit}`CNNCTR`. -/
def cnnctrD (s : ControlState) (i : ControlInput) : BitVec 8 :=
  if i.cfgIcbCmdWrHsk && i.offset == cnnCtr then
    i.cfgIcbCmdWdata.extractLsb' 0 8 &&& (if i.cfgIcbCmdWmask.getLsbD 0 then 0xff else 0)
  else s.cnnctr

/-- A response is given in the cycle after its command. -/
def cfgIcbRspValidD (s : ControlState) (i : ControlInput) : Bool :=
  if i.cfgIcbCmdHsk && !s.cfgIcbRspValid then true
  else if i.cfgIcbRspReady && s.cfgIcbRspValid then false
  else false

/-- What it reads. -/
def cfgIcbRspRdataD (s : ControlState) (done : Bool) (i : ControlInput) : BitVec 32 :=
  if i.cfgIcbCmdRdHsk && i.offset == cnnCtr then s.cnnctr.setWidth 32
  else if i.cfgIcbCmdRdHsk && i.offset == cnnStatus then (cnnstatus done).setWidth 32
  else 0

/-- One rising clock edge, with the core's done wire. -/
def step (s : ControlState) (done : Bool) (i : ControlInput) : ControlState where
  cnnctr := s.cnnctrD i
  cfgIcbRspValid := s.cfgIcbRspValidD i
  cfgIcbRspRdata := s.cfgIcbRspRdataD done i

/-- A configuration read of {lit}`CNNSTATUS` is accepted in this cycle. -/
def ReadsStatus (i : ControlInput) : Prop :=
  i.cfgIcbCmdRdHsk = true ∧ i.offset = cnnStatus

instance (i : ControlInput) : Decidable (ReadsStatus i) :=
  inferInstanceAs (Decidable (_ ∧ _))

/-- A status read samples one exactly while the done wire is up. -/
theorem samples_iff {s : ControlState} {done : Bool} {i : ControlInput} (h : ReadsStatus i) :
    (s.step done i).cfgIcbRspRdata = 1 ↔ done = true := by
  have hother : (i.offset == cnnCtr) = false := by
    rw [h.2]
    rfl
  have hstatus : (i.offset == cnnStatus) = true := by
    rw [h.2]
    rfl
  cases done <;> simp [step, cfgIcbRspRdataD, h.1, hother, hstatus, cnnstatus]

end ControlState

/-! ## The top level -/

/-- {lit}`cnn_top`, with the bookkeeping of the core's memory channel. -/
structure TopState where
  control : ControlState
  bus : BusState

/-- The ports of {lit}`cnn_top` in one cycle. -/
structure TopInput where
  cfg : ControlInput
  cnnIcbCmdReady : Bool
  cnnIcbRspValid : Bool
  cnnIcbRspRdata : Word

namespace TopState

/-- Control unit and core out of reset. -/
def reset : TopState where
  control := ControlState.reset
  bus := BusState.reset

/-- Input ports of the core in this cycle. -/
def coreInput (s : TopState) (i : TopInput) : CoreInput where
  enable := s.control.enable
  cnnIcbCmdReady := i.cnnIcbCmdReady
  cnnIcbRspValid := i.cnnIcbRspValid
  cnnIcbRspRdata := i.cnnIcbRspRdata

/-- One rising clock edge of both blocks. -/
def step (s : TopState) (i : TopInput) : TopState where
  control := s.control.step s.bus.core.done i.cfg
  bus := s.bus.step (s.coreInput i)

end TopState

/-- {lit}`cnn_top` out of reset, cycle by cycle. -/
def topRun (inp : Nat → TopInput) : Nat → TopState :=
  run TopState.step TopState.reset inp

/-- The input ports of the core along a run. -/
def coreInputs (inp : Nat → TopInput) (n : Nat) : CoreInput :=
  (topRun inp n).coreInput (inp n)

/-- The core inside {lit}`cnn_top` runs on the ports that it sees there. -/
theorem topRun_bus (inp : Nat → TopInput) (n : Nat) :
    (topRun inp n).bus = busRun (coreInputs inp) n :=
  run_simulation (f := TopState.bus) (g := TopState.coreInput) (fun _ _ => rfl)
    TopState.reset inp n

end CnnTop
end AcceleratorSoc
